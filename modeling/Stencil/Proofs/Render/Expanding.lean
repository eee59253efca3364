import Stencil.Proofs.Render.Expansion
import Stencil.Proofs.Render.Keeping
import Stencil.Render.Include

/-!
# Renders of static views

A render of static views in memory goes through their includes until it meets one that leads
on to no end. If it meets none, it gives what the views expand to. This holds of each include
if it holds of the includes inside it, and so by induction on how deep includes may still go.
-/

namespace Stencil

/-! # Reading views -/

def CacheCurrent (source : ViewSource) (cache : Option (Cache (List Node))) : Prop :=
  CacheHolds (fun entry => source.parsed entry.1 = .ok entry.2) cache

theorem Rendering.fetch_current {source : ViewSource} {s : RenderState}
    (h : CacheCurrent source s.cache) (path : Text) :
    ∃ cache, Rendering.fetch source path s = (source.parsed path, { s with cache := cache }) ∧
      CacheCurrent source cache := by
  rcases @Rendering.fetch_holds _ path source s h (fun _ hparsed => hparsed) with
    ⟨result, cache, hfetch, hcache, rfl | ⟨nodes, rfl, hnodes⟩⟩
  · exact ⟨cache, hfetch, hcache⟩
  · dsimp only at hnodes
    rw [hnodes]
    exact ⟨cache, hfetch, hcache⟩

namespace MemoryViews

variable {views : MemoryViews} {viewsType path : Text}

theorem parsed_of_text? {text : String} {nodes : List Node} (htext : views.text? path = some text)
    (hparse : View.parse text = .ok nodes) :
    (views.source viewsType).parsed path = .ok nodes := by
  have hread : (views.source viewsType).read path = .ok text := by
    simp only [source, htext]
  rw [ViewSource.parsed, hread]
  simp only [bind, Except.bind, hparse]

theorem parsed_of_absent (h : views.text? path = none) :
    (views.source viewsType).parsed path =
      .error (.view (ErrorForm.viewNotFound.fill [("path", .text path)] none)) := by
  have hread : (views.source viewsType).read path =
      .error (.view (ErrorForm.viewNotFound.fill [("path", .text path)] none)) := by
    simp only [source, h]
  rw [ViewSource.parsed, hread]
  rfl

end MemoryViews

structure Advances (source : ViewSource) (paths : List Text) (s after : RenderState) : Prop where
  includes : after.includes = paths.reverse ++ s.includes
  cache : CacheCurrent source after.cache

theorem Advances.trans {source : ViewSource} {paths others : List Text}
    {s after last : RenderState} (h : Advances source paths s after)
    (hlast : Advances source others after last) : Advances source (paths ++ others) s last := by
  constructor
  · rw [hlast.includes, h.includes, List.reverse_append, List.append_assoc]
  · exact hlast.cache

/-! # Includes without data -/

section Includes

variable {setup : RenderSetup} {site : Site} {line scope left : Nat} {name target : Text}
  {s : RenderState} (hcache : CacheCurrent setup.source s.cache)

theorem includeTarget_some
    (h : ViewPath.resolve? setup.source.viewsType name site.view = some target) :
    includeTarget setup site ⟨line, name, none, scope⟩ s = (.ok (some (target, [])), s) := by
  rw [includeTarget, bind_def]
  simp only [includeData, ViewPath.resolve, h]
  rfl

theorem renderInclude_endless
    (h : ViewPath.resolve? setup.source.viewsType name site.view = some target)
    (hendless : target ∈ site.stack ∨ left = 0) :
    ∃ e after, renderInclude setup left site ⟨line, name, none, scope⟩ s =
      (.error (.view e), after) ∧ e.code = "INCLUDE_CYCLE" := by
  refine ⟨cycleError site ⟨line, name, none, scope⟩ target, { s with
    events := .includeCycle target (site.stack ++ [target]) :: s.events }, ?_, rfl⟩
  cases left with
  | zero =>
      rw [renderInclude, bind_def, includeTarget_some h]
      rfl
  | succ left =>
      have hstack : target ∈ site.stack := by simpa using hendless
      rw [renderInclude, bind_def, includeTarget_some h]
      simp only [List.contains_iff_mem.mpr hstack, if_true]
      rfl

include hcache

theorem renderInclude_outside
    (h : ViewPath.resolve? setup.source.viewsType name site.view = none) :
    ∃ after, renderInclude setup left site ⟨line, name, none, scope⟩ s = (.ok "", after) ∧
      Advances setup.source [] s after := by
  have htarget : ∃ after, includeTarget setup site ⟨line, name, none, scope⟩ s =
      (.ok none, after) ∧ Advances setup.source [] s after := by
    rw [includeTarget, bind_def]
    simp only [includeData, ViewPath.resolve, h]
    exact ⟨_, rfl, rfl, hcache⟩
  rcases htarget with ⟨after, hrun, hafter⟩
  refine ⟨after, ?_, hafter⟩
  cases left with
  | zero =>
      rw [renderInclude, bind_def, hrun]
      rfl
  | succ left =>
      rw [renderInclude, bind_def, hrun]
      rfl

theorem includeNodes_present (inclusion : Inclusion) {nodes : List Node}
    (hparsed : setup.source.parsed target = .ok nodes) :
    ∃ after, includeNodes setup site inclusion target s = (.ok (some nodes), after) ∧
      after.store = s.store ∧ Advances setup.source [] s after := by
  rcases @Rendering.fetch_current setup.source
    { s with events := .includeLoading target (site.depth + 1) :: s.events } hcache target with
      ⟨cache, hfetch, hcurrent⟩
  rw [includeNodes, bind_def, Rendering.note]
  dsimp only
  rw [bind_def, Rendering.attempt, hfetch, hparsed]
  exact ⟨_, rfl, rfl, rfl, hcurrent⟩

theorem includeNodes_absent (inclusion : Inclusion) {e : ViewError}
    (hparsed : setup.source.parsed target = .error (.view e))
    (hcode : recoverableCodes.contains e.code = true) :
    ∃ after, includeNodes setup site inclusion target s = (.ok none, after) ∧
      Advances setup.source [] s after := by
  rcases @Rendering.fetch_current setup.source
    { s with events := .includeLoading target (site.depth + 1) :: s.events } hcache target with
      ⟨cache, hfetch, hcurrent⟩
  rw [includeNodes, bind_def, Rendering.note]
  dsimp only
  rw [bind_def, Rendering.attempt, hfetch, hparsed]
  simp only [hcode, if_true]
  exact ⟨_, rfl, rfl, hcurrent⟩

variable (h : ViewPath.resolve? setup.source.viewsType name site.view = some target)
  (hnew : target ∉ site.stack)

include h hnew

theorem renderInclude_absent {e : ViewError}
    (hparsed : setup.source.parsed target = .error (.view e))
    (hcode : recoverableCodes.contains e.code = true) :
    ∃ after, renderInclude setup (left + 1) site ⟨line, name, none, scope⟩ s = (.ok "", after) ∧
      Advances setup.source [] s after := by
  rcases @includeNodes_absent setup site target s hcache ⟨line, name, none, scope⟩ e hparsed
    hcode with ⟨after, hnodes, hafter⟩
  have hcontains : site.stack.contains target = false := by simpa using hnew
  rw [renderInclude, bind_def, includeTarget_some h]
  simp only [hcontains, Bool.false_eq_true, if_false]
  rw [bind_def, hnodes]
  exact ⟨after, rfl, hafter⟩

theorem renderInclude_present {nodes : List Node}
    (hparsed : setup.source.parsed target = .ok nodes) :
    ∃ inner before, renderInclude setup (left + 1) site ⟨line, name, none, scope⟩ s =
      renderAll setup.host (renderInclude setup left (site.enter target)) inner nodes before ∧
        Advances setup.source [target] s before := by
  rcases @includeNodes_present setup site target s hcache ⟨line, name, none, scope⟩ nodes
    hparsed with ⟨after, hnodes, hstore, hafter⟩
  have hcontains : site.stack.contains target = false := by simpa using hnew
  rw [renderInclude, bind_def, includeTarget_some h]
  simp only [hcontains, Bool.false_eq_true, if_false]
  rw [bind_def, hnodes]
  refine ⟨_, _, rfl, ?_, hafter.cache⟩
  show target :: after.includes = _
  rw [hafter.includes]
  rfl

end Includes

/-! # Renders that expand -/

section Expanding

variable (views : MemoryViews) (viewsType : Text) (most : Nat)

/--
How rendering nodes of a view ends behind a row of views that are being rendered, the view
itself being the last: in what the nodes expand to, or in an include that leads on to no end.
-/
def Expanding (row : List Text) (path : Text) (nodes : List Node) (s : RenderState) :
    Except Trouble Text × RenderState → Prop
  | (.ok output, after) =>
      (∃ paths, views.Expands viewsType path nodes output paths ∧
        Advances (views.source viewsType) paths s after) ∧
      ∀ target ∈ Node.targets viewsType path nodes, ¬ views.RunsAway viewsType most row target
  | (.error trouble, _) =>
      (∃ e : ViewError, trouble = .view e ∧ e.code = "INCLUDE_CYCLE") ∧
      ∃ target ∈ Node.targets viewsType path nodes, views.RunsAway viewsType most row target

variable {views viewsType most} {row : List Text} {path : Text} {s : RenderState}

theorem Expanding.cons {node : Node} {rest : List Node} {first others : Rendering Text}
    (hfirst : Expanding views viewsType most row path [node] s (first s))
    (hothers : ∀ after, CacheCurrent (views.source viewsType) after.cache →
      Expanding views viewsType most row path rest after (others after)) :
    Expanding views viewsType most row path (node :: rest) s
      ((do
        let a ← first
        let b ← others
        return a ++ b : Rendering Text) s) := by
  have htargets : Node.targets viewsType path (node :: rest) =
      Node.targets viewsType path [node] ++ Node.targets viewsType path rest :=
    Node.targets_append viewsType path [node] rest
  rw [bind_def]
  generalize first s = run at hfirst
  rcases run with ⟨trouble | a, after⟩
  · rcases hfirst with ⟨he, target, htarget, haway⟩
    refine ⟨he, target, ?_, haway⟩
    rw [htargets]
    exact List.mem_append_left _ htarget
  · rcases hfirst with ⟨⟨paths, hexpands, hafter⟩, hnone⟩
    have hrest := hothers after hafter.cache
    dsimp only
    rw [bind_def]
    generalize others after = run at hrest
    rcases run with ⟨trouble | b, last⟩
    · rcases hrest with ⟨he, target, htarget, haway⟩
      refine ⟨he, target, ?_, haway⟩
      rw [htargets]
      exact List.mem_append_right _ htarget
    · rcases hrest with ⟨⟨others, hothersExpand, hlast⟩, hnoneRest⟩
      refine ⟨⟨paths ++ others, hexpands.append hothersExpand, hafter.trans hlast⟩, ?_⟩
      intro target htarget
      rw [htargets] at htarget
      rcases List.mem_append.mp htarget with htarget | htarget
      · exact hnone target htarget
      · exact hnoneRest target htarget

theorem expanding_nodes {host : Host} {enter : Inclusion → Rendering Text} {scope : Nat}
    (henter : ∀ line name s, CacheCurrent (views.source viewsType) s.cache →
      Expanding views viewsType most row path [.inclusion line name none] s
        (enter ⟨line, name, none, scope⟩ s))
    {nodes : List Node} (hstatic : ∀ node ∈ nodes, node.isStatic = true)
    (hcache : CacheCurrent (views.source viewsType) s.cache) :
    Expanding views viewsType most row path nodes s (renderAll host enter scope nodes s) := by
  induction nodes generalizing s with
  | nil =>
      rw [renderAll]
      exact ⟨⟨[], .nil, rfl, hcache⟩, by simp [Node.targets]⟩
  | cons node rest ih =>
      have hrest : ∀ other ∈ rest, other.isStatic = true :=
        fun other hother => hstatic other (List.mem_cons_of_mem _ hother)
      have hnode := hstatic node List.mem_cons_self
      rw [renderAll]
      refine Expanding.cons ?_ fun after hafter => ih hrest hafter
      cases node with
      | text line text =>
          rw [renderNode]
          refine ⟨⟨[], ?_, rfl, hcache⟩, by simp [Node.targets, Node.target?]⟩
          rw [← Text.append_empty text]
          exact .text .nil
      | inclusion line name data =>
          cases data with
          | none =>
              rw [renderNode]
              exact henter line name s hcache
          | some source => cases hnode
      | _ => cases hnode

theorem Expanding.of_empty {line : Nat} {name : Text} {after : RenderState}
    (habsent : ∀ target, ViewPath.resolve? viewsType name (some path) = some target →
      views.text? target = none ∧ target ∉ row ∧ row.length ≤ most)
    (hafter : Advances (views.source viewsType) [] s after) :
    Expanding views viewsType most row path [.inclusion line name none] s (.ok "", after) := by
  refine ⟨⟨[], .absent (fun target htarget => (habsent target htarget).1) .nil, hafter⟩, ?_⟩
  intro target htarget haway
  rw [Node.targets_inclusion, Option.mem_toList] at htarget
  rcases habsent target htarget with ⟨htext, hnew, hdepth⟩
  cases haway with
  | back hendless =>
      rcases hendless with hmem | hdeep
      · exact hnew hmem
      · omega
  | on hnext =>
      rcases hnext with ⟨text, nodes, hsome, _⟩
      rw [htext] at hsome
      cases hsome

theorem Expanding.of_inner {line : Nat} {name target : Text} {text : String} {nodes : List Node}
    {before : RenderState} {run : Except Trouble Text × RenderState}
    (htarget : ViewPath.resolve? viewsType name (some path) = some target)
    (htext : views.text? target = some text) (hparse : View.parse text = .ok nodes)
    (hnew : target ∉ row) (hdepth : row.length ≤ most)
    (hbefore : Advances (views.source viewsType) [target] s before)
    (hinner : Expanding views viewsType most (row ++ [target]) target nodes before run) :
    Expanding views viewsType most row path [.inclusion line name none] s run := by
  have hmem : target ∈ Node.targets viewsType path [.inclusion line name none] := by
    rw [Node.targets_inclusion, htarget]
    exact List.mem_singleton_self target
  rcases run with ⟨trouble | output, after⟩
  · rcases hinner with ⟨he, next, hnext, haway⟩
    have hincludes := (MemoryViews.includes_iff htext hparse).mpr hnext
    exact ⟨he, target, hmem, .on hincludes haway⟩
  · rcases hinner with ⟨⟨paths, hexpands, hafter⟩, hnone⟩
    have hincluded : views.Expands viewsType path [.inclusion line name none]
        (output ++ Text.ofString "") (target :: paths ++ []) :=
      .included htarget htext hparse hexpands .nil
    rw [Text.append_empty, List.append_nil] at hincluded
    refine ⟨⟨target :: paths, hincluded, hbefore.trans hafter⟩, ?_⟩
    intro other hother haway
    rw [Node.targets_inclusion, htarget] at hother
    cases List.mem_singleton.mp hother
    cases haway with
    | back hendless =>
        rcases hendless with hback | hdeep
        · exact hnew hback
        · omega
    | on hnext haway =>
        exact hnone _ ((MemoryViews.includes_iff htext hparse).mp hnext) haway

theorem Expanding.of_endless {line : Nat} {name target : Text} {e : ViewError}
    {after : RenderState} (hcode : e.code = "INCLUDE_CYCLE")
    (htarget : ViewPath.resolve? viewsType name (some path) = some target)
    (hendless : target ∈ row ∨ most < row.length) :
    Expanding views viewsType most row path [.inclusion line name none] s
      (.error (.view e), after) := by
  refine ⟨⟨e, rfl, hcode⟩, target, ?_, .back hendless⟩
  rw [Node.targets_inclusion, htarget]
  exact List.mem_singleton_self target

theorem expanding_inclusion {setup : RenderSetup} (hsource : setup.source = views.source viewsType)
    (hstatic : ∀ path text, views.text? path = some text → View.isStatic text = true)
    (left : Nat) {site : Site} (hview : site.view = some path)
    (hleft : left + site.stack.length = most + 1) (line scope : Nat) (name : Text)
    (hcache : CacheCurrent setup.source s.cache) :
    Expanding views viewsType most site.stack path [.inclusion line name none] s
      (renderInclude setup left site ⟨line, name, none, scope⟩ s) := by
  rcases setup with ⟨host, source, maxDepth⟩
  change source = views.source viewsType at hsource
  subst hsource
  -- Each include that is entered leaves less depth for those inside it.
  induction left using Nat.strong_induction_on generalizing site path line scope name s with
  | _ left ih =>
      have hlocal : ViewPath.resolve?
          (RenderSetup.mk host (views.source viewsType) maxDepth).source.viewsType name site.view =
            ViewPath.resolve? viewsType name (some path) := by
        rw [hview]
        rfl
      cases hresolve : ViewPath.resolve? viewsType name (some path) with
      | none =>
          rcases renderInclude_outside hcache (hlocal.trans hresolve) with ⟨after, hrun, hafter⟩
          rw [hrun]
          refine .of_empty ?_ hafter
          intro target htarget
          cases hresolve.symm.trans htarget
      | some target =>
          have hfound := hlocal.trans hresolve
          by_cases hendless : target ∈ site.stack ∨ left = 0
          · rcases renderInclude_endless hfound hendless with ⟨e, after, hrun, hcode⟩
            rw [hrun]
            exact .of_endless hcode hresolve (hendless.imp_right fun hzero => by omega)
          · rcases not_or.mp hendless with ⟨hnew, hpos⟩
            rcases Nat.exists_eq_succ_of_ne_zero hpos with ⟨left, rfl⟩
            cases htext : views.text? target with
            | none =>
                have hcode : recoverableCodes.contains ErrorForm.viewNotFound.code = true := rfl
                rcases renderInclude_absent hcache hfound hnew
                  (MemoryViews.parsed_of_absent htext) hcode with ⟨after, hrun, hafter⟩
                rw [hrun]
                refine .of_empty ?_ hafter
                intro other hother
                cases hresolve.symm.trans hother
                exact ⟨htext, hnew, by omega⟩
            | some text =>
                rcases View.exists_parse_of_isStatic (hstatic target text htext) with
                  ⟨nodes, hparse, hnodes⟩
                rcases renderInclude_present hcache hfound hnew
                  (MemoryViews.parsed_of_text? htext hparse) with ⟨inner, before, hrun, hbefore⟩
                rw [hrun]
                refine .of_inner hresolve htext hparse hnew (by omega) hbefore ?_
                refine expanding_nodes ?_ hnodes hbefore.cache
                intro line name s hcache
                refine @ih left (Nat.lt_succ_self left) target s (site.enter target) rfl ?_ line
                  inner name hcache
                simp only [Site.enter, List.length_append, List.length_singleton]
                omega

theorem expanding_view {setup : RenderSetup} (hsource : setup.source = views.source viewsType)
    (hstatic : ∀ path text, views.text? path = some text → View.isStatic text = true)
    (hpath : path.isEmpty = false) {nodes : List Node}
    (hnodes : ∀ node ∈ nodes, node.isStatic = true)
    (hcache : CacheCurrent setup.source s.cache) :
    Expanding views viewsType setup.maxDepth [path] path nodes s
      (renderView setup (some path) nodes s) := by
  have hstack : (Site.top (some path)).stack = [path] := by
    simp [Site.top, Text.said, hpath]
  rw [renderView]
  rw [hsource] at hcache
  refine expanding_nodes ?_ hnodes hcache
  intro line name s hcache
  rw [← hsource] at hcache
  rw [← hstack]
  refine expanding_inclusion hsource hstatic setup.maxDepth rfl ?_ line 0 name hcache
  rw [hstack]
  rfl

end Expanding

end Stencil
