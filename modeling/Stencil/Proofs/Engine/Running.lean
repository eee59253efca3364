import Stencil.Proofs.Engine.Reachable

/-!
# Runs of an engine

How the runs of an engine end, put together from what its includes and its cache do. The
cache keeps nothing but views that were read, so what is rendered was read, whether it
comes from the cache or not.
-/

namespace Stencil

/-! # Cached views -/

def CacheRead (cache : Option (Cache (List Node))) : Prop :=
  ∀ found ∈ cache, ∀ entry ∈ found.entries, Node.AllRead entry.2

theorem ViewSource.parsed_of_read {source : ViewSource} {path : Text} {text : String}
    (h : source.read path = .ok text) :
    source.parsed path =
      match View.parse text with
      | .ok nodes => .ok nodes
      | .error e => .error (.view (View.structureError e (some path))) := by
  rw [ViewSource.parsed, h]
  rfl

theorem ViewSource.parsed_ok {source : ViewSource} {path : Text} {nodes : List Node}
    (h : source.parsed path = .ok nodes) :
    ∃ text, source.read path = .ok text ∧ View.parse text = .ok nodes := by
  rcases bind_eq_ok_iff.mp h with ⟨text, hread, h⟩
  split at h
  next hparse =>
      cases h
      exact ⟨text, hread, hparse⟩
  · cases h

theorem ViewSource.allRead_of_parsed {source : ViewSource} {path : Text} {nodes : List Node}
    (h : source.parsed path = .ok nodes) : Node.AllRead nodes := by
  rcases source.parsed_ok h with ⟨text, _, hparse⟩
  exact View.allRead_of_parse hparse

/-! # Fresh stores -/

theorem Store.bound?_restart (σ : Store) (data : Entries Value) (helpers : Helpers) (key : Key) :
    (σ.restart data helpers).bound? 0 key = data.get? key :=
  rfl

namespace Rendering

theorem Keeps.fetch_holds {test : Text × List Node → Prop} {source : ViewSource} {path : Text}
    {fails : Trouble → Prop} (htest : ∀ nodes, source.parsed path = .ok nodes → test (path, nodes))
    (hread : ∀ nodes, test (path, nodes) → Node.AllRead nodes)
    (hfails : ∀ trouble, source.parsed path = .error trouble → fails trouble) :
    Keeps (CacheHolds test) fails Node.AllRead (fetch source path) := by
  intro s hs
  rcases Rendering.fetch_holds hs htest with ⟨result, cache, hfetch, hcache, hresult⟩
  rw [hfetch]
  rcases hresult with rfl | ⟨nodes, rfl, hnodes⟩
  · constructor
    · exact hcache
    · intro nodes hnodes
      exact source.allRead_of_parsed hnodes
    · exact hfails
  · exact .ok hcache (hread nodes hnodes)

theorem Keeps.fetch {source : ViewSource} {path : Text} {fails : Trouble → Prop}
    (hfails : ∀ trouble, source.parsed path = .error trouble → fails trouble) :
    Keeps CacheRead fails Node.AllRead (fetch source path) :=
  .fetch_holds (fun _ => source.allRead_of_parsed) (fun _ hread => hread) hfails

/-! # Renders -/

theorem renderOver_eq {setup : RenderSetup} {helpers : Helpers} {view : Option Text}
    {data : Value} {nodes : List Node} {s : RenderState} {entries : Entries Value}
    (h : renderData s.store data = .ok entries) :
    renderOver setup helpers view data nodes s =
      match renderView setup view nodes { s with store := s.store.restart entries helpers } with
      | (.ok output, after) =>
          (.ok ⟨output, Node.anyDirective nodes, after.includes.reverse⟩, after)
      | (.error trouble, after) => (.error trouble, after) := by
  have hget : (get : Rendering RenderState) s = (.ok s, s) := rfl
  rw [renderOver, bind_def, hget]
  dsimp only
  rw [bind_def, ofExcept, h]
  dsimp only
  rw [bind_def, onStore]
  dsimp only
  rw [bind_def]
  rcases renderView setup view nodes { s with store := s.store.restart entries helpers } with
    ⟨_ | output, after⟩
  · rfl
  · rfl

section Renders

variable {kept : Option (Cache (List Node)) → Prop} {may : Trouble → Prop}
  {setup : RenderSetup} (hmay : ∀ again, setup.host.Escapes again → may again.trouble)
  (hlasts : setup.host.LengthensNothing ∨ may .unending)
  (hcycle : ∀ e : ViewError, e.code = ErrorForm.includeCycle.code → may (.view e))
  (hfetch : ∀ path, Keeps kept (fun trouble => may trouble ∨ Recovers trouble) Node.AllRead
    (fetch setup.source path))
  (helpers : Helpers) {data : Value} {s : RenderState} (hs : kept s.cache)
  (hdata : ∀ trouble, renderData s.store data = .error trouble → may trouble)

include hmay hlasts hcycle hfetch hs hdata

theorem ends_renderOver (view : Option Text) {nodes : List Node} (hnodes : Node.AllRead nodes) :
    Ends kept may (fun _ => True) (renderOver setup helpers view data nodes s) := by
  have hget : (get : Rendering RenderState) s = (.ok s, s) := rfl
  unfold renderOver
  rw [bind_def, hget]
  dsimp only
  rw [bind_def, ofExcept]
  cases hentries : renderData s.store data with
  | error trouble => exact .error hs (hdata trouble hentries)
  | ok entries =>
      dsimp only
      have hrestart : Keeps kept may (fun _ => True)
          (Rendering.onStore fun σ => ((), σ.restart entries helpers)) := .onStore fun _ => trivial
      have hafter : Keeps kept may (fun _ => True) (get : Rendering RenderState) :=
        .read fun _ => trivial
      refine (hrestart.bind ?_) s hs
      intro _ _
      apply (Keeps.renderView hmay hlasts hcycle hfetch view hnodes).bind
      intro output _
      apply hafter.bind
      intro after _
      exact .pure trivial

theorem ends_renderText {text : String} {view : Option Text}
    (hparse : ∀ e, View.parse text = .error e → may (.view (View.structureError e view))) :
    Ends kept may (fun _ => True) (renderText setup helpers text view data s) := by
  unfold renderText
  cases hnodes : View.parse text with
  | error e => exact .error hs (hparse e hnodes)
  | ok nodes =>
      exact ends_renderOver hmay hlasts hcycle hfetch helpers hs hdata view
        (View.allRead_of_parse hnodes)

theorem ends_renderNamed {name : Text}
    (hresolve : ViewPath.resolve? setup.source.viewsType name none = none →
      may (.view (ViewPath.outsideError name)))
    (htop : ∀ path, ViewPath.resolve? setup.source.viewsType name none = some path →
      Keeps kept may Node.AllRead (fetch setup.source path)) :
    Ends kept may (fun _ => True) (renderNamed setup helpers name data s) := by
  unfold renderNamed ViewPath.resolve
  cases hpath : ViewPath.resolve? setup.source.viewsType name none with
  | none => exact .error hs (hresolve hpath)
  | some path =>
      dsimp only
      have hends := htop path hpath s hs
      have hstore := store_fetch setup.source path s
      rw [bind_def]
      generalize fetch setup.source path s = run at hends hstore
      rcases run with ⟨result, after⟩
      cases result with
      | error trouble => exact .error hends.cache (hends.trouble trouble rfl)
      | ok nodes =>
          apply ends_renderOver hmay hlasts hcycle hfetch helpers hends.cache
          · rwa [hstore]
          · exact hends.value nodes rfl

end Renders

end Rendering

/-! # Runs -/

namespace Engine

theorem concluded_error {view : Option Text} {action : Rendering Rendered} {s after : RenderState}
    {trouble : Trouble}
    (h : action { s with events := .renderStarted :: s.events } = (.error trouble, after)) :
    (concluded view action s).1 = .error (trouble.escape (view.map .text)) ∧
      (concluded view action s).2.store = after.store ∧
      (concluded view action s).2.cache = after.cache := by
  unfold concluded
  rw [h]
  dsimp only
  cases trouble.escape (view.map .text) <;> exact ⟨rfl, rfl, rfl⟩

theorem run_cases {kept : Option (Cache (List Node)) → Prop} {may : Trouble → Prop}
    {action : Rendering Rendered} (engine : Engine) (view : Option Text)
    (h : ∀ s : RenderState, s.store = engine.store → s.cache = engine.cache →
      Rendering.Ends kept may (fun _ => True) (action s)) :
    kept (engine.run view action).2.cache ∧
      ((∃ rendered, (engine.run view action).1 = .ok rendered) ∨
        ∃ trouble, may trouble ∧
          (engine.run view action).1 = .error (trouble.escape (view.map .text))) := by
  have hends := h { engine.begin with events := .renderStarted :: engine.begin.events } rfl rfl
  rcases hending : action { engine.begin with events := .renderStarted :: engine.begin.events } with
    ⟨trouble | rendered, after⟩
  · rw [hending] at hends
    rcases @concluded_error view _ _ _ _ hending with ⟨herror, -, hcache⟩
    refine ⟨?_, .inr ⟨trouble, hends.trouble trouble rfl, herror⟩⟩
    show kept (concluded view action engine.begin).2.cache
    rw [hcache]
    exact hends.cache
  · rw [hending] at hends
    unfold run concluded
    rw [hending]
    exact ⟨hends.cache, .inl ⟨rendered, rfl⟩⟩

theorem run_fst (engine : Engine) (view : Option Text) (action : Rendering Rendered) :
    (engine.run view action).1 =
      (action { engine.begin with events := [.renderStarted] }).1.mapError fun trouble =>
        trouble.escape (view.map .text) := by
  rcases hending : action { engine.begin with events := [.renderStarted] } with
    ⟨trouble | rendered, after⟩
  · exact (@concluded_error view _ engine.begin _ _ hending).1
  · unfold run concluded
    rw [show action { engine.begin with events := .renderStarted :: engine.begin.events } = _ from
      hending]
    rfl

theorem renderSource_fst {engine : Engine} {host : Host} {text : String} {view : Option Text}
    {data : Value} {nodes : List Node} {entries : Entries Value}
    (hparse : View.parse text = .ok nodes) (hdata : renderData engine.store data = .ok entries) :
    (engine.renderSource host text view data).1 =
      match renderView (engine.setup host) view nodes
        ⟨engine.store.restart entries engine.helpers, engine.cache, [.renderStarted], []⟩ with
      | (.ok output, after) =>
          .ok ⟨output, Node.anyDirective nodes, after.includes.reverse⟩
      | (.error trouble, _) => .error (trouble.escape (view.map .text)) := by
  rw [renderSource, run_fst, renderText, hparse]
  dsimp only
  rw [@Rendering.renderOver_eq (engine.setup host) engine.helpers view data nodes
    { engine.begin with events := [.renderStarted] } entries hdata]
  change Except.mapError _ (Prod.fst (match renderView (engine.setup host) view nodes
    ⟨engine.store.restart entries engine.helpers, engine.cache, [.renderStarted], []⟩ with
      | (.ok output, after) => _
      | (.error trouble, after) => _)) = _
  rcases renderView (engine.setup host) view nodes
    ⟨engine.store.restart entries engine.helpers, engine.cache, [.renderStarted], []⟩ with
      ⟨_ | output, after⟩
  · rfl
  · rfl

section Engines

variable {engine : Engine} (h : CacheRead engine.cache) (host : Host) (may : Trouble → Prop)
  (hmay : ∀ again, host.Escapes again → may again.trouble)
  (hlasts : host.LengthensNothing ∨ may .unending)
  (hcycle : ∀ e : ViewError, e.code = ErrorForm.includeCycle.code → may (.view e))
  (hread : ∀ path trouble, engine.source.parsed path = .error trouble →
    may trouble ∨ Rendering.Recovers trouble)
  {data : Value}
  (hdata : ∀ trouble, renderData engine.store data = .error trouble → may trouble)

include h hmay hlasts hcycle hread hdata

theorem renderSource_cases (text : String) (view : Option Text)
    (hparse : ∀ e, View.parse text = .error e → may (.view (View.structureError e view))) :
    CacheRead (engine.renderSource host text view data).2.cache ∧
      ((∃ rendered, (engine.renderSource host text view data).1 = .ok rendered) ∨
        ∃ trouble, may trouble ∧ (engine.renderSource host text view data).1 =
          .error (trouble.escape (view.map .text))) := by
  apply engine.run_cases view
  intro s hstore hcache
  rw [← hcache] at h
  rw [← hstore] at hdata
  exact Rendering.ends_renderText hmay hlasts hcycle (fun path => .fetch (hread path))
    engine.helpers h
    hdata hparse

theorem render_cases (name : Text)
    (hresolve : ViewPath.resolve? engine.source.viewsType name none = none →
      may (.view (ViewPath.outsideError name)))
    (htop : ∀ path, ViewPath.resolve? engine.source.viewsType name none = some path →
      ∀ trouble, engine.source.parsed path = .error trouble → may trouble) :
    CacheRead (engine.render host name data).2.cache ∧
      ((∃ rendered, (engine.render host name data).1 = .ok rendered) ∨
        ∃ trouble, may trouble ∧ (engine.render host name data).1 =
          .error (trouble.escape (some (.text name)))) := by
  apply engine.run_cases (some name)
  intro s hstore hcache
  rw [← hcache] at h
  rw [← hstore] at hdata
  exact Rendering.ends_renderNamed hmay hlasts hcycle (fun path => .fetch (hread path))
    engine.helpers h
    hdata hresolve (fun path hpath => .fetch (htop path hpath))

end Engines

/-! # Engines in use -/

section Holds

variable {test : Text × List Node → Prop} {engine : Engine} (h : CacheHolds test engine.cache)

include h

theorem holds_clearCache (name : Option Text) :
    CacheHolds test (engine.clearCache name).2.cache := by
  unfold clearCache
  split
  · exact h
  next cache hcache hname =>
      rw [hcache] at h
      exact h.of_subset (List.nil_subset _)
  next cache path hcache hname =>
      split
      · rw [hcache] at h
        exact h.of_subset List.filter_sublist.subset
      · exact h

theorem holds_perform (host : Host) (request : Request)
    (htest : ∀ path nodes, engine.source.parsed path = .ok nodes → test (path, nodes))
    (hread : ∀ path nodes, test (path, nodes) → Node.AllRead nodes) :
    CacheHolds test (engine.perform host request).2.cache := by
  have hfetch : ∀ (may : Trouble → Prop), (∀ trouble, may trouble) → ∀ path,
      Rendering.Keeps (CacheHolds test) may Node.AllRead (Rendering.fetch engine.source path) :=
    fun may hmay path => .fetch_holds (htest path) (hread path) fun trouble _ => hmay trouble
  cases request with
  | render name data =>
      refine (@run_cases (CacheHolds test) (fun _ => True) _ engine (some name) ?_).1
      intro s _ hcache
      rw [← hcache] at h
      exact @Rendering.ends_renderNamed _ (fun _ => True) (engine.setup host)
        (fun _ _ => trivial) (.inr trivial) (fun _ _ => trivial) (hfetch _ fun _ => .inl trivial)
        engine.helpers data s h
        (fun _ _ => trivial) name (fun _ => trivial)
        (fun path _ => hfetch _ (fun _ => trivial) path)
  | renderSource text view data =>
      refine (@run_cases (CacheHolds test) (fun _ => True) _ engine view ?_).1
      intro s _ hcache
      rw [← hcache] at h
      exact @Rendering.ends_renderText _ (fun _ => True) (engine.setup host)
        (fun _ _ => trivial) (.inr trivial) (fun _ _ => trivial) (hfetch _ fun _ => .inl trivial)
        engine.helpers data s h
        (fun _ _ => trivial) text view (fun _ _ => trivial)
  | register name helper =>
      show CacheHolds test (engine.register name helper).2.cache
      unfold register
      split <;> exact h
  | registerAll given => exact h
  | addView name text =>
      show CacheHolds test (engine.addView name text).2.cache
      unfold addView
      split
      · split <;> exact h
      · exact h
  | writeFile path text => exact h
  | clearCache name => exact holds_clearCache h name
  | change shared => exact h

end Holds

theorem IsFresh.holds {test : Text × List Node → Prop} {engine : Engine} {logging : LogSection}
    {given : Entries Value} {memory : Option GivenViews} {store : Store}
    (h : engine.IsFresh logging given memory store) : CacheHolds test engine.cache := by
  rw [h.cache]
  split
  · exact .empty
  · exact .none

theorem Reachable.cacheRead {engine : Engine} (h : engine.Reachable) :
    CacheRead engine.cache := by
  refine h.induct (motive := fun engine => CacheRead engine.cache) ?_ ?_ ?_
  · intro engine _ _ _ _ hfresh
    exact hfresh.holds
  · intro engine journal hcache
    exact hcache
  · intro engine host request hcache
    exact holds_perform hcache host request (fun _ _ => engine.source.allRead_of_parsed)
      (fun _ _ hread => hread)

end Engine

end Stencil
