import Mathlib
import Stencil.Proofs.Engine.Running

/-!
# Failures are confined

A render over views in memory gives its whole text, or fails because a view is malformed
or includes itself without end. The view that is asked for by name may also not be there.
Nothing else stops it, whatever the views and the data are, unless a helper fails with what
cannot be told or caught.
-/

namespace Stencil

/-! # Views in memory -/

theorem MemoryViews.parsed_error_cases {views : MemoryViews} {viewsType path : Text}
    {trouble : Trouble} (h : (views.source viewsType).parsed path = .error trouble) :
    (∃ text fault, views.text? path = some text ∧ View.parse text = .error fault ∧
      trouble = .view (View.structureError fault (some path))) ∨
    (views.text? path = none ∧
      trouble = .view (ErrorForm.viewNotFound.fill [("path", .text path)] none)) := by
  cases htext : views.text? path with
  | none =>
      have hread : (views.source viewsType).read path =
          .error (.view (ErrorForm.viewNotFound.fill [("path", .text path)] none)) := by
        simp only [source, htext]
      rw [ViewSource.parsed, hread] at h
      cases h
      exact .inr ⟨rfl, rfl⟩
  | some text =>
      have hread : (views.source viewsType).read path = .ok text := by
        simp only [source, htext]
      rw [ViewSource.parsed_of_read hread] at h
      split at h
      · cases h
      next fault hparse =>
          cases h
          exact .inl ⟨text, fault, rfl, hparse, rfl⟩

theorem MemoryViews.parsed_error {views : MemoryViews} {viewsType path : Text}
    {trouble : Trouble} (h : (views.source viewsType).parsed path = .error trouble) :
    ∃ e : ViewError, trouble = .view e ∧
      (e.code = "PARSE_STRUCTURE" ∨ e.code = "VIEW_NOT_FOUND" ∧ views.text? path = none) := by
  rcases parsed_error_cases h with ⟨text, fault, _, _, rfl⟩ | ⟨htext, rfl⟩
  · exact ⟨_, rfl, .inl rfl⟩
  · exact ⟨_, rfl, .inr ⟨rfl, htext⟩⟩

theorem renderData_ne_error {σ : Store} {data : Value}
    (h : data = .null ∨ σ.isMapping data = true) (trouble : Trouble) :
    renderData σ data ≠ .error trouble := by
  intro herror
  rcases h with rfl | h
  · cases herror
  · unfold renderData at herror
    split at herror
    · cases herror
    · rcases Option.isSome_iff_exists.mp h with ⟨entries, hentries⟩
      rw [hentries] at herror
      cases herror

def ViewError.IsStructural (e : ViewError) : Prop :=
  e.code = "PARSE_STRUCTURE" ∨ e.code = "INCLUDE_CYCLE"

def ViewError.IsMissing (views : MemoryViews) (viewsType name : Text) (e : ViewError) : Prop :=
  e.code = "VIEW_NOT_FOUND" ∧
    ∀ path, ViewPath.resolve? viewsType name none = some path → views.text? path = none

def Trouble.IsView (test : ViewError → Prop) (trouble : Trouble) : Prop :=
  ∃ e : ViewError, trouble = .view e ∧ test e

/-- Whether a trouble is the host's doing: a failure of its own, or a list that it lengthens. -/
inductive Trouble.IsOfHost (host : Host) : Trouble → Prop where
  | escaped {again : Failure} (h : host.Escapes again) : IsOfHost host again.trouble
  | unending (h : ¬ host.LengthensNothing) : IsOfHost host .unending

theorem Trouble.lasts_or_isOfHost (host : Host) :
    host.LengthensNothing ∨ Trouble.IsOfHost host .unending := by
  by_cases hhost : host.LengthensNothing
  · exact .inl hhost
  · exact .inr (.unending hhost)

/--
How a render may end: with a text, with a view error of some kind, or with what gets out when a
function of the host fails with what cannot be told or caught. If there is a function that
lengthens lists, it may also not come to an end.
-/
inductive Confined (host : Host) (view : Option Text) (test : ViewError → Prop) :
    Except Escape Rendered → Prop where
  | ok (rendered : Rendered) : Confined host view test (.ok rendered)
  | view {e : ViewError} (h : test e) : Confined host view test (.error (.view e))
  | escaped {again : Failure} (h : host.Escapes again) :
      Confined host view test (.error (again.trouble.escape (view.map .text)))
  | unending (h : ¬ host.LengthensNothing) : Confined host view test (.error .unending)

theorem Confined.of_trouble {host : Host} {view : Option Text} {may test : ViewError → Prop}
    {trouble : Trouble} (h : trouble.IsView may ∨ trouble.IsOfHost host)
    (hwithin : ∀ e, may e → test (e.within (view.map .text) none)) :
    Confined host view test (.error (trouble.escape (view.map .text))) := by
  rcases h with ⟨e, rfl, he⟩ | hhost
  · exact .view (hwithin e he)
  · cases hhost with
    | escaped hagain => exact .escaped hagain
    | unending hlengthens => exact .unending hlengthens

theorem Confined.of_tells {host : Host} {view : Option Text} {test : ViewError → Prop}
    {result : Except Escape Rendered} (h : Confined host view test result) (htells : host.Tells)
    (hlengthens : host.LengthensNothing) :
    (∃ rendered, result = .ok rendered) ∨ ∃ e, result = .error (.view e) ∧ test e := by
  cases h with
  | ok rendered => exact .inl ⟨rendered, rfl⟩
  | view h => exact .inr ⟨_, rfl, h⟩
  | escaped h => exact absurd h (htells.not_escapes _)
  | unending h => exact absurd hlengthens h

namespace Engine

section Memory

variable {engine : Engine} {views : MemoryViews} {data : Value} (h : engine.Reachable)
  (hviews : engine.shelf = .memory views)

include hviews

theorem source_of_memory : engine.source = views.source engine.viewsType := by
  unfold source
  rw [hviews]

theorem parsed_error {path : Text} {trouble : Trouble}
    (herror : engine.source.parsed path = .error trouble) :
    trouble.IsView ViewError.IsStructural ∨ Rendering.Recovers trouble := by
  rw [source_of_memory hviews] at herror
  rcases MemoryViews.parsed_error herror with ⟨e, he, hcode | hcode⟩
  · exact .inl ⟨e, he, .inl hcode⟩
  · refine .inr ⟨e, he, ?_⟩
    rw [hcode.1]
    decide

variable (host : Host) (hdata : data = .null ∨ engine.store.isMapping data = true)

include h hdata

theorem renderSource_confined (text : String) (view : Option Text) :
    Confined host view ViewError.IsStructural (engine.renderSource host text view data).1 := by
  have hread : ∀ path trouble, engine.source.parsed path = .error trouble →
      (trouble.IsView ViewError.IsStructural ∨ trouble.IsOfHost host) ∨
        Rendering.Recovers trouble :=
    fun path trouble htrouble => (parsed_error hviews htrouble).imp_left .inl
  have hcases := renderSource_cases h.cacheRead host
    (fun trouble => trouble.IsView ViewError.IsStructural ∨ trouble.IsOfHost host)
    (fun again hagain => .inr (.escaped hagain))
    ((Trouble.lasts_or_isOfHost host).imp_right .inr) (fun e he => .inl ⟨e, rfl, .inr he⟩) hread
    (fun trouble htrouble => absurd htrouble (renderData_ne_error hdata trouble)) text view
    (fun e _ => .inl ⟨_, rfl, .inl rfl⟩)
  rcases hcases.2 with ⟨rendered, hok⟩ | ⟨trouble, hmay, herror⟩
  · rw [hok]
    exact .ok rendered
  · rw [herror]
    exact .of_trouble hmay fun e he => he

theorem render_confined (name : Text) :
    Confined host (some name) (fun e => e.IsStructural ∨ e.IsMissing views engine.viewsType name)
      (engine.render host name data).1 := by
  have hsource := source_of_memory hviews
  have hresolve : ViewPath.resolve? engine.source.viewsType name none = none →
      (ViewPath.outsideError name).IsMissing views engine.viewsType name := by
    intro hnone
    rw [hsource] at hnone
    constructor
    · rfl
    · intro path hpath
      cases hnone.symm.trans hpath
  have htop : ∀ path, ViewPath.resolve? engine.source.viewsType name none = some path →
      ∀ trouble, engine.source.parsed path = .error trouble →
        trouble.IsView fun e => e.IsStructural ∨ e.IsMissing views engine.viewsType name := by
    intro path hpath trouble htrouble
    rw [hsource] at hpath htrouble
    rcases MemoryViews.parsed_error htrouble with ⟨e, he, hcode | ⟨hcode, hmissing⟩⟩
    · exact ⟨e, he, .inl (.inl hcode)⟩
    · refine ⟨e, he, .inr ⟨hcode, ?_⟩⟩
      intro other hother
      cases hpath.symm.trans hother
      exact hmissing
  -- An include recovers from a view that is not there, so only the view asked for is missing.
  have hread : ∀ path trouble, engine.source.parsed path = .error trouble →
      ((trouble.IsView fun e => e.IsStructural ∨ e.IsMissing views engine.viewsType name) ∨
        trouble.IsOfHost host) ∨ Rendering.Recovers trouble := by
    intro path trouble htrouble
    rcases parsed_error hviews htrouble with ⟨e, he, hcode⟩ | hrecovers
    · exact .inl (.inl ⟨e, he, .inl hcode⟩)
    · exact .inr hrecovers
  have hcases := render_cases h.cacheRead host
    (fun trouble =>
      (trouble.IsView fun e => e.IsStructural ∨ e.IsMissing views engine.viewsType name) ∨
        trouble.IsOfHost host)
    (fun again hagain => .inr (.escaped hagain))
    ((Trouble.lasts_or_isOfHost host).imp_right .inr)
    (fun e he => .inl ⟨e, rfl, .inl (.inr he)⟩) hread
    (fun trouble htrouble => absurd htrouble (renderData_ne_error hdata trouble)) name
    (fun hnone => .inl ⟨_, rfl, .inr (hresolve hnone)⟩)
    (fun path hpath trouble htrouble => .inl (htop path hpath trouble htrouble))
  rcases hcases.2 with ⟨rendered, hok⟩ | ⟨trouble, hmay, herror⟩
  · rw [hok]
    exact .ok rendered
  · rw [herror]
    exact .of_trouble hmay fun e he => he

end Memory

/--
Whatever the views, the data and the helpers, a text is rendered to its end or fails structurally,
unless a function of the host fails with what cannot be told or caught, or lengthens a list without
end. A view that is asked for by name may also be missing.
-/
theorem Reachable.failures_confined {engine : Engine} {views : MemoryViews} {data : Value}
    (h : engine.Reachable) (hviews : engine.shelf = .memory views)
    (hdata : data = .null ∨ engine.store.isMapping data = true) (host : Host) :
    (∀ (text : String) (view : Option Text),
      Confined host view ViewError.IsStructural (engine.renderSource host text view data).1) ∧
      ∀ name : Text,
        Confined host (some name)
          (fun e => e.IsStructural ∨ e.IsMissing views engine.viewsType name)
          (engine.render host name data).1 :=
  ⟨renderSource_confined h hviews host hdata, render_confined h hviews host hdata⟩

theorem Reachable.confined_of_tells {engine : Engine} {views : MemoryViews} {data : Value}
    (h : engine.Reachable) (hviews : engine.shelf = .memory views)
    (hdata : data = .null ∨ engine.store.isMapping data = true) {host : Host}
    (htells : host.Tells) (hlengthens : host.LengthensNothing) :
    (∀ (text : String) (view : Option Text),
      (∃ rendered, (engine.renderSource host text view data).1 = .ok rendered) ∨
        ∃ e, (engine.renderSource host text view data).1 = .error (.view e) ∧ e.IsStructural) ∧
      ∀ name : Text,
        (∃ rendered, (engine.render host name data).1 = .ok rendered) ∨
          ∃ e, (engine.render host name data).1 = .error (.view e) ∧
            (e.IsStructural ∨ e.IsMissing views engine.viewsType name) :=
  ⟨fun text view => (renderSource_confined h hviews host hdata text view).of_tells htells
      hlengthens,
    fun name => (render_confined h hviews host hdata name).of_tells htells hlengthens⟩

def faultyViews : GivenViews where
  viewsType := "html"
  views := [("page.html", "@{boom()}@{1 +}@include('gone')")]

theorem Reachable.failures_confined_faulty :
    ∃ engine : Engine, engine.Reachable ∧ engine.shelf = .memory faultyViews.views ∧
      Confined .none (some "page")
        (fun e => e.IsStructural ∨ e.IsMissing faultyViews.views engine.viewsType "page")
        (engine.render .none "page" .null).1 := by
  have hstarts : (Engine.start false .standard [] (some faultyViews) ⟨[], []⟩ (.ofData [] [])
      [(.str "boom", .callable (.host "boom" false))]).isOk = true := by
    cbv
  rcases exists_of_isOk hstarts with ⟨engine, hstart⟩
  have hviews := ((isFresh_of_start hstart).shelf faultyViews rfl).2
  have hconfined := Reachable.failures_confined (.start hstart) hviews (.inl rfl) .none
  exact ⟨engine, .start hstart, hviews, hconfined.2 "page"⟩

end Engine

def Host.mute : Host where
  run _ _ name _ := {
    result := .error (if name == "boom" then .untold "Mute" (.raised "ValueError" "no text")
      else .fatal "SystemExit" "bye") }

theorem evalSource_call {host : Host} {source name : String}
    (hcompile : Expr.compile source = .ok (.call (.name name) [])) {σ : Store} {scope : Nat}
    (hlookup : σ.lookup scope name = .callable (.host name false)) :
    evalSource host scope source σ =
      ((host.run σ none name []).result,
        (σ.record ⟨.host name false, []⟩).rewrite (host.run σ none name []).changes) := by
  have hname : (Expr.name name).eval host scope σ = (.ok (.callable (.host name false)), σ) := by
    rw [← hlookup]
    rfl
  rw [evalSource, hcompile]
  dsimp only
  rw [Expr.eval, bind_def, hname]
  rfl

theorem Engine.renderSource_escapes {engine : Engine} {host : Host} {name : String}
    (hparse : View.parse ("@\x7b" ++ name ++ "()\x7d") = .ok [.interpolation 1 (name ++ "()")])
    (hcompile : Expr.compile (name ++ "()") = .ok (.call (.name name) []))
    (hlookup : (engine.store.restart [] engine.helpers).lookup 0 name =
      .callable (.host name false)) {failure again : Failure}
    (hfails : ∀ σ, (host.run σ none name []).result = .error failure)
    (hagain : failure.told = .error again) :
    (engine.renderSource host ("@\x7b" ++ name ++ "()\x7d") none .null).1 =
      .error (again.trouble.escape none) := by
  have hdata : renderData engine.store .null = .ok [] := rfl
  rw [renderSource_fst hparse hdata, renderView, renderAll, bind_def, renderNode, bind_def,
    Rendering.textOf, Rendering.recover, bind_def, Rendering.onStore, textOfSource, bind_def]
  dsimp only
  rw [show (engine.setup host).host = host from rfl, evalSource_call hcompile hlookup, hfails]
  dsimp only
  rw [hagain]
  rfl

/-- A helper that fails without a text stops a render, and one that ends the program gets out. -/
theorem Engine.untold_failure_escapes :
    ∃ engine : Engine, engine.Reachable ∧ engine.shelf = .memory [] ∧
      (∃ e, (engine.renderSource .mute "@\x7bboom()\x7d" none .null).1 = .error (.view e) ∧
        e.code = "INTERNAL_ERROR" ∧ ¬ e.IsStructural) ∧
      (engine.renderSource .mute "@\x7bquit()\x7d" none .null).1 =
        .error (.failure (.fatal "SystemExit" "bye")) := by
  have hstarts : (Engine.start false .standard [] (some ⟨"html", []⟩) ⟨[], []⟩ (.ofData [] [])
      [(.str "boom", .callable (.host "boom" false)),
        (.str "quit", .callable (.host "quit" false))]).map (fun engine =>
          ((engine.store.restart [] engine.helpers).lookup 0 "boom",
            (engine.store.restart [] engine.helpers).lookup 0 "quit")) =
      .ok (.callable (.host "boom" false), .callable (.host "quit" false)) := by
    cbv
  rcases map_eq_ok_iff.mp hstarts with ⟨engine, hstart, hhelpers⟩
  rcases Prod.mk.inj hhelpers with ⟨hboom, hquit⟩
  have hviews := ((Engine.isFresh_of_start hstart).shelf ⟨"html", []⟩ rfl).2
  have hmute := @Engine.renderSource_escapes engine .mute "boom" (by cbv)
    (by cbv) hboom _ _ (fun _ => rfl) rfl
  have hends := @Engine.renderSource_escapes engine .mute "quit" (by cbv)
    (by cbv) hquit _ _ (fun _ => rfl) rfl
  refine ⟨engine, .start hstart, hviews, ⟨_, hmute, rfl, ?_⟩, hends⟩
  rintro (h | h) <;> exact absurd h (by decide)

end Stencil
