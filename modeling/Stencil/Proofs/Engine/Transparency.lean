import Mathlib
import Stencil.Proofs.Engine.Running
import Stencil.Proofs.Render.Caching
import Stencil.Proofs.Value.Names

/-!
# Engines with and without a cache

Two engines over the same views in memory, one with a cache and one without, answer a row of
requests alike, if no view is rendered while the cache may hold a view whose text has been
replaced. The cache of the one then keeps nothing but views as they are read now, or views
whose text has been replaced and that are going to be dropped. The only difference is in what
is said of a name that leads out of the views when it is to be dropped from the cache: an
engine without a cache does not look at the name.
-/

namespace Stencil
namespace Rendering

/-! # Runs -/

section Runs

variable (setup : RenderSetup) (helpers : Helpers)

theorem IgnoresCache.renderOver (view : Option Text) (data : Value) (nodes : List Node) :
    IgnoresCache setup.source (renderOver setup helpers view data nodes) := by
  refine .read (fun _ => rfl) fun s => ?_
  refine (IgnoresCache.ofExcept _).bind fun entries => ?_
  refine (IgnoresCache.onStore _).bind fun _ => ?_
  refine (IgnoresCache.renderView view nodes).bind fun output => ?_
  exact .read (fun _ => rfl) fun _ => .pure _

theorem IgnoresCache.renderText (text : String) (view : Option Text) (data : Value) :
    IgnoresCache setup.source (renderText setup helpers text view data) := by
  unfold Stencil.renderText
  split
  · exact .throw _
  · exact .renderOver setup helpers view data _

theorem IgnoresCache.renderNamed (name : Text) (data : Value) :
    IgnoresCache setup.source (renderNamed setup helpers name data) := by
  unfold Stencil.renderNamed
  split
  · exact .throw _
  next path _ =>
      exact (IgnoresCache.fetch path).bind fun nodes =>
        .renderOver setup helpers (some path) data nodes

end Runs

end Rendering

theorem concluded_uncached {source : ViewSource} {action : Rendering Rendered}
    (haction : Rendering.IgnoresCache source action) (view : Option Text) {s : RenderState}
    (hs : CacheCurrent source s.cache) :
    concluded view action s.uncached =
        ((concluded view action s).1, (concluded view action s).2.uncached) ∧
      CacheCurrent source (concluded view action s).2.cache ∧
        (concluded view action s).2.cache.isSome = s.cache.isSome := by
  rcases haction { s with events := .renderStarted :: s.events } hs with ⟨hrun, hcurrent, hkept⟩
  have hstart : ({ s.uncached with events := .renderStarted :: s.uncached.events } : RenderState) =
      RenderState.uncached { s with events := .renderStarted :: s.events } := rfl
  unfold concluded
  rw [hstart, hrun]
  generalize action { s with events := .renderStarted :: s.events } = run at hcurrent hkept
  rcases run with ⟨trouble | rendered, after⟩
  · dsimp only
    cases trouble.escape (view.map .text) <;> exact ⟨rfl, hcurrent, hkept⟩
  · exact ⟨rfl, hcurrent, hkept⟩

/-! # Views that have been replaced -/

namespace MemoryViews

theorem text?_cons (path other : Text) (text : String) (rest : MemoryViews) :
    text? ((path, text) :: rest) other = if path = other then some text else rest.text? other := by
  by_cases hpath : path = other <;> simp [text?, hpath]

theorem text?_set (views : MemoryViews) (path other : Text) (text : String) :
    (views.set path text).text? other = if path = other then some text else views.text? other := by
  induction views with
  | nil => exact text?_cons path other text []
  | cons first rest ih =>
      rcases first with ⟨p, t⟩
      rw [set]
      by_cases hfirst : p = path
      · subst hfirst
        simp only [beq_self_eq_true, if_true, text?_cons]
        split <;> rfl
      · simp only [beq_iff_eq, hfirst, if_false, text?_cons, ih]
        by_cases hother : p = other
        · subst hother
          simp [Ne.symm hfirst]
        · simp [hother]

theorem parsed_congr {views others : MemoryViews} {path : Text}
    (h : views.text? path = others.text? path) (viewsType : Text) :
    (views.source viewsType).parsed path = (others.source viewsType).parsed path := by
  simp only [ViewSource.parsed, source, h]

end MemoryViews

namespace Engine

/-- The views in memory, and the paths whose text has been replaced since they were cleared. -/
structure Upkeep where
  viewsType : Text
  views : MemoryViews
  stale : List Text

def Request.isRender : Request → Bool
  | .render _ _ => true
  | .renderSource _ _ _ => true
  | _ => false

namespace Upkeep

/-- Sets the text of a path, which stays as it was only if it was the same or was not there. -/
def replace (u : Upkeep) (path : Text) (text : String) : Upkeep :=
  { u with
    views := u.views.set path text
    stale :=
      match u.views.text? path with
      | none => u.stale
      | some old => if old == text then u.stale else path :: u.stale }

/-- What a request does to the views and to what is known of the cache. -/
def after (u : Upkeep) : Request → Upkeep
  | .addView name text =>
      match ViewPath.resolve? u.viewsType name none with
      | none => u
      | some path => u.replace path text
  | .clearCache name =>
      match Text.said name with
      | none => { u with stale := [] }
      | some name =>
          match ViewPath.resolve? u.viewsType name none with
          | none => u
          | some path => { u with stale := u.stale.filter (· != path) }
  | _ => u

theorem viewsType_after (u : Upkeep) (request : Request) :
    (u.after request).viewsType = u.viewsType := by
  cases request with
  | addView name text =>
      rw [after]
      split <;> rfl
  | clearCache name =>
      rw [after]
      split
      · rfl
      · split <;> rfl
  | _ => rfl

/-- Whether every text that is replaced is cleared from the cache before the next render. -/
def Tidy (u : Upkeep) : List Request → Prop
  | [] => True
  | request :: rest => (request.isRender = true → u.stale = []) ∧ (u.after request).Tidy rest

instance : (u : Upkeep) → (requests : List Request) → Decidable (u.Tidy requests)
  | _, [] => isTrue trivial
  | u, request :: rest =>
      have := instDecidableTidy (u.after request) rest
      inferInstanceAs (Decidable ((request.isRender = true → u.stale = []) ∧
        (u.after request).Tidy rest))

end Upkeep

def answers (host : Host) (engine : Engine) : List Request → List Answer
  | [] => []
  | request :: rest =>
      (engine.perform host request).1 :: answers host (engine.perform host request).2 rest

def Request.outside? (viewsType : Text) : Request → Option Text
  | .clearCache name =>
      (Text.said name).filter fun name => (ViewPath.resolve? viewsType name none).isNone
  | _ => none

/-- What an engine with a cache answers where one without a cache gives an answer. -/
def Request.cachedAnswer (viewsType : Text) (request : Request) (answer : Answer) : Answer :=
  match request.outside? viewsType with
  | some name => .finished (.error (ViewPath.outsideError name))
  | none => answer

/-! # Twins -/

/--
Whether an engine differs from another in nothing but its cache, which the other does not have:
it keeps views as they are read now, or views whose text has been replaced.
-/
structure IsTwin (u : Upkeep) (on off : Engine) : Prop where
  same : ∃ settings : Settings,
    settings.views.maxIncludeDepth = on.settings.views.maxIncludeDepth ∧
      off = { on with settings := settings, cache := none }
  viewsType : on.viewsType = u.viewsType
  shelf : on.shelf = .memory u.views
  cached : ∃ cache, on.cache = some cache ∧
    ∀ entry ∈ cache.entries, entry.1 ∈ u.stale ∨ on.source.parsed entry.1 = .ok entry.2

theorem run_uncached {on : Engine} {action : Rendering Rendered}
    (haction : Rendering.IgnoresCache on.source action) (hon : CacheCurrent on.source on.cache)
    (settings : Settings) (view : Option Text) :
    ({ on with settings := settings, cache := none } : Engine).run view action =
        ((on.run view action).1,
          { (on.run view action).2 with settings := settings, cache := none }) ∧
      CacheCurrent on.source (on.run view action).2.cache ∧
        (on.run view action).2.cache.isSome = on.cache.isSome := by
  rcases concluded_uncached haction view (s := on.begin) hon with ⟨hrun, hcurrent, hkept⟩
  have hbegin : ({ on with settings := settings, cache := none } : Engine).begin =
      on.begin.uncached := rfl
  unfold run
  rw [hbegin, hrun]
  exact ⟨rfl, hcurrent, hkept⟩

namespace IsTwin

section Steps

variable {u : Upkeep} {on off : Engine} (h : IsTwin u on off) (host : Host)

include h

theorem setup_eq : off.setup host = on.setup host := by
  rcases h.same with ⟨settings, hdepth, rfl⟩
  rw [setup, setup, hdepth]
  rfl

theorem helpers_eq : off.helpers = on.helpers := by
  rcases h.same with ⟨settings, -, rfl⟩
  rfl

theorem current (hstale : u.stale = []) : CacheCurrent on.source on.cache := by
  rcases h.cached with ⟨cache, hcache, hentries⟩
  intro found hfound entry hentry
  rw [hcache] at hfound
  cases hfound
  simpa [hstale] using hentries entry hentry

theorem run (hstale : u.stale = []) {action : Rendering Rendered}
    (haction : Rendering.IgnoresCache on.source action) (view : Option Text) :
    (off.run view action).1 = (on.run view action).1 ∧
      IsTwin u (on.run view action).2 (off.run view action).2 := by
  rcases h.same with ⟨settings, hdepth, rfl⟩
  rcases run_uncached haction (h.current hstale) settings view with ⟨hrun, hcurrent, hkept⟩
  rw [hrun]
  refine ⟨rfl, ⟨settings, hdepth, rfl⟩, h.viewsType, h.shelf, ?_⟩
  rcases h.cached with ⟨cache, hcache, _⟩
  rw [hcache, Option.isSome_some] at hkept
  rcases Option.isSome_iff_exists.mp hkept with ⟨after, hafter⟩
  refine ⟨after, hafter, ?_⟩
  intro entry hentry
  exact .inr (hcurrent after hafter entry hentry)

theorem render (hstale : u.stale = []) (name : Text) (data : Value) :
    (off.render host name data).1 = (on.render host name data).1 ∧
      IsTwin u (on.render host name data).2 (off.render host name data).2 := by
  rw [Engine.render, Engine.render, h.setup_eq, h.helpers_eq]
  exact h.run hstale (.renderNamed (on.setup host) on.helpers name data) (some name)

theorem renderSource (hstale : u.stale = []) (text : String) (view : Option Text)
    (data : Value) :
    (off.renderSource host text view data).1 = (on.renderSource host text view data).1 ∧
      IsTwin u (on.renderSource host text view data).2
        (off.renderSource host text view data).2 := by
  rw [Engine.renderSource, Engine.renderSource, h.setup_eq, h.helpers_eq]
  exact h.run hstale (.renderText (on.setup host) on.helpers text view data) view

theorem register (name helper : Value) :
    (off.register name helper).1 = (on.register name helper).1 ∧
      IsTwin u (on.register name helper).2 (off.register name helper).2 := by
  rcases h.same with ⟨settings, hdepth, rfl⟩
  rw [Engine.register, Engine.register]
  cases on.helpers.register on.store name helper with
  | ok helpers => exact ⟨rfl, ⟨settings, hdepth, rfl⟩, h.viewsType, h.shelf, h.cached⟩
  | error e => exact ⟨rfl, h⟩

theorem registerAll (given : Value) :
    (off.registerAll given).1 = (on.registerAll given).1 ∧
      IsTwin u (on.registerAll given).2 (off.registerAll given).2 := by
  rcases h.same with ⟨settings, hdepth, rfl⟩
  exact ⟨rfl, ⟨settings, hdepth, rfl⟩, h.viewsType, h.shelf, h.cached⟩

theorem writeFile (path : Text) (text : String) :
    IsTwin u (on.writeFile path text) (off.writeFile path text) := by
  rcases h.same with ⟨settings, hdepth, rfl⟩
  refine ⟨⟨settings, hdepth, rfl⟩, h.viewsType, h.shelf, ?_⟩
  rcases h.cached with ⟨cache, hcache, hentries⟩
  refine ⟨cache, hcache, ?_⟩
  have hsource : (on.writeFile path text).source = on.source := by
    rw [source, source, show (on.writeFile path text).shelf = on.shelf from rfl, h.shelf]
    rfl
  rwa [hsource]

theorem replace (path : Text) (text : String) :
    IsTwin (u.replace path text) { on with shelf := .memory (u.views.set path text) }
      { off with shelf := .memory (u.views.set path text) } := by
  rcases h.same with ⟨settings, hdepth, rfl⟩
  refine ⟨⟨settings, hdepth, rfl⟩, h.viewsType, rfl, ?_⟩
  rcases h.cached with ⟨cache, hcache, hentries⟩
  refine ⟨cache, hcache, ?_⟩
  rintro ⟨found, nodes⟩ hentry
  have hsource : on.source = u.views.source on.viewsType := by rw [source, h.shelf]
  have hstale : u.stale ⊆ (u.replace path text).stale := by
    intro other hother
    unfold Upkeep.replace
    dsimp only
    split
    · exact hother
    · split
      · exact hother
      · exact List.mem_cons_of_mem _ hother
  rcases hentries _ hentry with hold | hparsed
  · exact .inl (hstale hold)
  · rw [hsource] at hparsed
    change (u.views.source on.viewsType).parsed found = .ok nodes at hparsed
    have hsame (htext : u.views.text? found = (u.views.set path text).text? found) :
        ((u.views.set path text).source on.viewsType).parsed found = .ok nodes := by
      rw [← MemoryViews.parsed_congr htext, hparsed]
    by_cases hpath : path = found
    · subst hpath
      cases hold : u.views.text? path with
      | none =>
          rw [MemoryViews.parsed_of_absent hold] at hparsed
          cases hparsed
      | some old =>
          by_cases hequal : old = text
          · refine .inr (hsame ?_)
            rw [MemoryViews.text?_set, if_pos rfl, hold, hequal]
          · refine .inl ?_
            simp [Upkeep.replace, hold, hequal]
    · refine .inr (hsame ?_)
      rw [MemoryViews.text?_set, if_neg hpath]

theorem addView (name : Text) (text : String) :
    (off.addView name text).1 = (on.addView name text).1 ∧
      IsTwin (u.after (.addView name text)) (on.addView name text).2
        (off.addView name text).2 := by
  have hshelf : off.shelf = .memory u.views := by
    rcases h.same with ⟨settings, -, rfl⟩
    exact h.shelf
  have htype : off.viewsType = on.viewsType := by
    rcases h.same with ⟨settings, -, rfl⟩
    rfl
  cases hpath : ViewPath.resolve? u.viewsType name none with
  | none =>
      have hadd : u.views.add on.viewsType name text = .error (ViewPath.outsideError name) := by
        rw [MemoryViews.add, ViewPath.resolve, h.viewsType, hpath]
        rfl
      simp only [Engine.addView, h.shelf, hshelf, htype, hadd, Upkeep.after, hpath]
      exact ⟨trivial, h⟩
  | some path =>
      have hadd : u.views.add on.viewsType name text = .ok (path, u.views.set path text) := by
        rw [MemoryViews.add, ViewPath.resolve, h.viewsType, hpath]
        rfl
      simp only [Engine.addView, h.shelf, hshelf, htype, hadd, Upkeep.after, hpath]
      exact ⟨trivial, by simpa only [htype] using h.replace path text⟩

theorem drop {cache after : Cache (List Node)} {stale : List Text} (hcache : on.cache = some cache)
    (hsub : after.entries ⊆ cache.entries)
    (hstale : ∀ entry ∈ after.entries, entry.1 ∈ u.stale → entry.1 ∈ stale) :
    IsTwin { u with stale := stale } { on with cache := some after } off := by
  rcases h.same with ⟨settings, hdepth, rfl⟩
  rcases h.cached with ⟨found, hfound, hentries⟩
  cases hcache.symm.trans hfound
  refine ⟨⟨settings, hdepth, rfl⟩, h.viewsType, h.shelf, after, rfl, ?_⟩
  intro entry hentry
  exact (hentries entry (hsub hentry)).imp_left (hstale entry hentry)

theorem clearCache (name : Option Text) :
    (Answer.finished (on.clearCache name).1 =
      (Request.clearCache name).cachedAnswer u.viewsType (.finished (off.clearCache name).1)) ∧
      IsTwin (u.after (.clearCache name)) (on.clearCache name).2 (off.clearCache name).2 := by
  have hoff : off.clearCache name = (.ok (), off) := by
    rcases h.same with ⟨settings, -, rfl⟩
    simp [Engine.clearCache]
  rw [hoff]
  rcases h.cached with ⟨cache, hcache, _⟩
  cases hname : Text.said name with
  | none =>
      simp only [Engine.clearCache, hcache, hname, Request.cachedAnswer, Request.outside?,
        Option.filter_none, Upkeep.after]
      exact ⟨trivial, h.drop hcache (List.nil_subset _) (by simp [Cache.clear])⟩
  | some said =>
      cases hpath : ViewPath.resolve? u.viewsType said none with
      | none =>
          have hresolve : ViewPath.resolve on.viewsType said none =
              .error (ViewPath.outsideError said) := by
            rw [ViewPath.resolve, h.viewsType, hpath]
          simp only [Engine.clearCache, hcache, hname, hresolve, hpath, Request.cachedAnswer,
            Request.outside?, Option.filter_some, Option.isNone_none, if_true, Upkeep.after]
          exact ⟨trivial, h⟩
      | some path =>
          have hresolve : ViewPath.resolve on.viewsType said none = .ok path := by
            rw [ViewPath.resolve, h.viewsType, hpath]
          simp only [Engine.clearCache, hcache, hname, hresolve, hpath, Request.cachedAnswer,
            Request.outside?, Option.filter_some, Option.isNone_some, Bool.false_eq_true, if_false,
            Upkeep.after]
          refine ⟨trivial, h.drop hcache List.filter_sublist.subset ?_⟩
          intro entry hentry hold
          exact List.mem_filter.mpr ⟨hold, (List.mem_filter.mp hentry).2⟩

theorem perform (request : Request) (hrender : request.isRender = true → u.stale = []) :
    (on.perform host request).1 =
        request.cachedAnswer u.viewsType (off.perform host request).1 ∧
      IsTwin (u.after request) (on.perform host request).2 (off.perform host request).2 := by
  cases request with
  | render name data =>
      rcases h.render host (hrender rfl) name data with ⟨hanswer, htwin⟩
      exact ⟨congrArg Answer.rendered hanswer.symm, htwin⟩
  | renderSource text view data =>
      rcases h.renderSource host (hrender rfl) text view data with ⟨hanswer, htwin⟩
      exact ⟨congrArg Answer.rendered hanswer.symm, htwin⟩
  | register name helper =>
      rcases h.register name helper with ⟨hanswer, htwin⟩
      exact ⟨congrArg Answer.finished hanswer.symm, htwin⟩
  | registerAll given =>
      rcases h.registerAll given with ⟨hanswer, htwin⟩
      exact ⟨congrArg Answer.finished hanswer.symm, htwin⟩
  | addView name text =>
      rcases h.addView name text with ⟨hanswer, htwin⟩
      exact ⟨congrArg Answer.added hanswer.symm, htwin⟩
  | writeFile path text => exact ⟨rfl, h.writeFile path text⟩
  | clearCache name => exact h.clearCache name
  | change shared =>
      rcases h.same with ⟨settings, hdepth, rfl⟩
      exact ⟨rfl, ⟨settings, hdepth, rfl⟩, h.viewsType, h.shelf, h.cached⟩

end Steps

theorem answers {u : Upkeep} {on off : Engine} (h : IsTwin u on off) (host : Host)
    {requests : List Request} (htidy : u.Tidy requests) :
    on.answers host requests =
      List.zipWith (Request.cachedAnswer u.viewsType) requests (off.answers host requests) := by
  induction requests generalizing u on off with
  | nil => rfl
  | cons request rest ih =>
      rcases h.perform host request htidy.1 with ⟨hanswer, htwin⟩
      have hrest := ih htwin htidy.2
      rw [u.viewsType_after request] at hrest
      rw [Engine.answers, Engine.answers, List.zipWith_cons_cons, hanswer, hrest]

end IsTwin

/-! # Engines that start as twins -/

section Start

variable {ownLog : Bool} {logging : LogSection} {given : Entries Value} {kept : GivenViews}
  {files : FileTree} {store : Store} {helpers : Entries Value} {engine on off : Engine}

theorem eq_of_start (h : start ownLog logging given (some kept) files store helpers = .ok engine) :
    engine =
      { settings := ⟨.ofEntries (Entries.merge ViewSettings.standard.entries given), logging⟩
        viewsType := kept.viewsType
        shelf := .memory kept.views
        files := files
        cache :=
          if (ViewSettings.ofEntries (Entries.merge ViewSettings.standard.entries given)).cache
          then some .empty else none
        helpers := (Helpers.registerAll store builtinHelpers (.map helpers)).2
        store := store
        journal := [] } := by
  rcases bind_eq_ok_iff.mp h with ⟨first, hbare, h⟩
  have hfalse := bare_of_ownLog hbare
  unfold bare at hfalse
  simp only [Bool.false_eq_true, if_false] at hfalse
  rcases bind_eq_ok_iff.mp hfalse with ⟨_, _, hfirst⟩
  cases hfirst
  split at h
  next started hstarted =>
      cases h
      exact (congrArg Prod.snd hstarted).symm
  · cases h

theorem ofEntries_cache (entries : Entries Value) (switch : Bool) :
    (ViewSettings.ofEntries (entries.put (.str "cache") (.bool switch))).cache = switch ∧
      (ViewSettings.ofEntries (entries.put (.str "cache") (.bool switch))).maxIncludeDepth =
        (ViewSettings.ofEntries entries).maxIncludeDepth := by
  have hname : ¬ (Text.ofString "cache" = Text.ofString "max_include_depth") := by decide
  constructor
  · simp [ViewSettings.ofEntries, Entries.named, Entries.get?_put_str, Value.flag?]
  · simp [ViewSettings.ofEntries, Entries.named, Entries.get?_put_str, hname]

theorem isTwin_of_start
    (hon : start ownLog logging (given ++ [(.str "cache", .bool true)]) (some kept) files store
      helpers = .ok on)
    (hoff : start ownLog logging (given ++ [(.str "cache", .bool false)]) (some kept) files store
      helpers = .ok off) :
    IsTwin ⟨kept.viewsType, kept.views, []⟩ on off := by
  have hengine := eq_of_start hon
  have hother := eq_of_start hoff
  simp only [Entries.merge_concat, (ofEntries_cache _ _).1] at hengine hother
  subst hengine hother
  refine ⟨⟨_, ?_, rfl⟩, rfl, rfl, .empty, rfl, by simp [Cache.empty]⟩
  simp only [(ofEntries_cache _ _).2]

/--
An engine with a cache answers a row of requests as one without, if every text that is replaced
is cleared from the cache before the next render: with the same output and the same includes,
or with the same error. Only the name of a view to be dropped that leads out of the views is an
error with a cache, and nothing at all without.
-/
theorem answers_cached
    (hon : start ownLog logging (given ++ [(.str "cache", .bool true)]) (some kept) files store
      helpers = .ok on)
    (hoff : start ownLog logging (given ++ [(.str "cache", .bool false)]) (some kept) files store
      helpers = .ok off)
    (host : Host) {requests : List Request}
    (htidy : Upkeep.Tidy ⟨kept.viewsType, kept.views, []⟩ requests) :
    on.answers host requests =
      List.zipWith (Request.cachedAnswer kept.viewsType) requests (off.answers host requests) :=
  (isTwin_of_start hon hoff).answers host htidy

end Start

def linkedViews : GivenViews where
  viewsType := "html"
  views := [("page.html", "<@include('part')>"), ("loop.html", "@include('loop')")]

theorem exists_linked (switch : Bool) :
    ∃ engine, start false .standard ([] ++ [(.str "cache", .bool switch)]) (some linkedViews)
      ⟨[], []⟩ (.ofData [] []) [] = .ok engine := by
  apply exists_of_isOk
  cases switch <;> cbv

def repairs : List Request :=
  [ .render "page" .null,
    .addView "part" "@{1 +}@if (x)",
    .render "page" .null,
    .render "loop" .null,
    .addView "part" "[@{1 + 1}]",
    .clearCache (some "./part"),
    .render "page" .null,
    .clearCache (some "../part") ]

theorem answers_cached_repairs :
    ∃ on off : Engine,
      start false .standard ([] ++ [(.str "cache", .bool true)]) (some linkedViews) ⟨[], []⟩
          (.ofData [] []) [] = .ok on ∧
        start false .standard ([] ++ [(.str "cache", .bool false)]) (some linkedViews) ⟨[], []⟩
            (.ofData [] []) [] = .ok off ∧
          Upkeep.Tidy ⟨linkedViews.viewsType, linkedViews.views, []⟩ repairs ∧
            on.answers .none repairs =
              List.zipWith (Request.cachedAnswer linkedViews.viewsType) repairs
                (off.answers .none repairs) := by
  rcases exists_linked true with ⟨on, hon⟩
  rcases exists_linked false with ⟨off, hoff⟩
  have htidy : Upkeep.Tidy ⟨linkedViews.viewsType, linkedViews.views, []⟩ repairs := by
    decide +kernel
  exact ⟨on, off, hon, hoff, htidy, answers_cached hon hoff .none htidy⟩

/-- Only an engine with a cache finds fault with a name that leads out of the views. -/
theorem answers_differ_outside :
    ∃ on off : Engine,
      start false .standard ([] ++ [(.str "cache", .bool true)]) (some linkedViews) ⟨[], []⟩
          (.ofData [] []) [] = .ok on ∧
        start false .standard ([] ++ [(.str "cache", .bool false)]) (some linkedViews) ⟨[], []⟩
            (.ofData [] []) [] = .ok off ∧
          Upkeep.Tidy ⟨linkedViews.viewsType, linkedViews.views, []⟩
              [.clearCache (some "../part")] ∧
            on.answers .none [.clearCache (some "../part")] ≠
              off.answers .none [.clearCache (some "../part")] := by
  rcases exists_linked true with ⟨on, hon⟩
  rcases exists_linked false with ⟨off, hoff⟩
  have htidy : Upkeep.Tidy ⟨linkedViews.viewsType, linkedViews.views, []⟩
      [.clearCache (some "../part")] := by
    decide +kernel
  refine ⟨on, off, hon, hoff, htidy, ?_⟩
  have htwin := isTwin_of_start hon hoff
  have houtside : (Request.clearCache (some "../part")).outside? linkedViews.viewsType =
      some "../part" := by
    decide +kernel
  have hanswer : (off.perform .none (.clearCache (some "../part"))).1 = .finished (.ok ()) := by
    rcases htwin.same with ⟨settings, -, rfl⟩
    rfl
  rw [htwin.answers .none htidy]
  intro hsame
  have hfirst := (List.cons.inj hsame).1
  rw [Request.cachedAnswer, houtside, hanswer] at hfirst
  cases hfirst

end Engine
end Stencil
