import Mathlib
import Stencil.Proofs.Engine.Confinement
import Stencil.Proofs.Engine.Expansion
import Stencil.Proofs.Render.Isolation
import Stencil.Proofs.View.Lines

/-!
# Where failures lie

A view error names a view and a line. However deep the includes go that lead there, it is the view
whose own text is malformed, or the view in whose nodes the include stands that would never end.
-/

namespace Stencil

/-! # Views by name -/

/--
What the name of a view stands for: what is at the top, if it is the name of the view there, else
what is found under the path.
-/
inductive Denotes {α : Type} (top : Option Text) (atTop : α) (found : Text → α → Prop) :
    Option Text → α → Prop where
  | top : Denotes top atTop found top atTop
  | path {path : Text} {a : α} :
      some path ≠ top → found path a → Denotes top atTop found (some path) a

def CacheAnswers (source : ViewSource) (answer : ViewNodes) (cache : Option (Cache (List Node))) :
    Prop :=
  ∀ s : RenderState, s.cache = cache → s.Answers source answer

structure Served (answer : ViewNodes) (path : Text) (nodes : List Node) : Prop where
  said : path.isEmpty = false
  answer : answer path = .ok nodes

/-- Whether a trouble is neither a view error nor about a file, so that no view is at fault. -/
inductive Trouble.IsForeign : Trouble → Prop where
  | other (kind : String) (text : Text) : IsForeign (.other kind text)
  | failed (failure : Failure) : IsForeign (.failed failure)
  | unending : IsForeign .unending

theorem Failure.isForeign_trouble (failure : Failure) : failure.trouble.IsForeign := by
  unfold trouble
  split
  · exact .other _ _
  · exact .failed _

theorem Trouble.IsForeign.code_ne {trouble : Trouble} (h : trouble.IsForeign)
    {outer : Option Fact} {code : String} (hcode : "INTERNAL_ERROR" ≠ code) :
    (trouble.toError outer []).code ≠ code := by
  cases h <;> exact hcode

/--
The troubles that are laid to the right view: an include in the nodes of the view where it stands
leads to one that is under way, or a view other than the one at the top cannot be had. Some are laid
to no view.
-/
inductive Blames (source : ViewSource) (answer : ViewNodes) (top : Option Text)
    (nodes : List Node) : Trouble → Prop where
  | cycle {site : Site} {inclusion : Inclusion} {path : Text} {found : List Node} :
      Denotes top nodes (Served answer) site.view found →
      .inclusion inclusion.line inclusion.path inclusion.data ∈ Node.walkAll found →
      ViewPath.resolve? source.viewsType inclusion.path site.view = some path →
      Blames source answer top nodes (.view (cycleError site inclusion path))
  | unread {path : Text} {trouble : Trouble} :
      path.isEmpty = false → some path ≠ top → source.parsed path = .error trouble →
      Blames source answer top nodes trouble
  | foreign {trouble : Trouble} : trouble.IsForeign → Blames source answer top nodes trouble

namespace Rendering

theorem Keeps.imp {α : Type} {kept : Option (Cache (List Node)) → Prop} {may might : Trouble → Prop}
    {gives : α → Prop} {action : Rendering α} (h : Keeps kept may gives action)
    (himp : ∀ trouble, may trouble → might trouble) : Keeps kept might gives action := by
  intro s hs
  have hends := h s hs
  exact ⟨hends.cache, hends.value, fun trouble h => himp trouble (hends.trouble trouble h)⟩

theorem Keeps.fetch_answers (source : ViewSource) (answer : ViewNodes) (path : Text) :
    Keeps (CacheAnswers source answer) (fun trouble => source.parsed path = .error trouble)
      (fun nodes => answer path = .ok nodes) (Rendering.fetch source path) := by
  intro s hs
  have hanswers := hs s rfl
  constructor
  · intro t ht
    exact (answers_fetch hanswers path).of_cache ht
  · intro nodes hnodes
    rw [← hanswers path, hnodes]
  · intro trouble htrouble
    unfold Rendering.fetch at htrouble
    split at htrouble
    · exact htrouble
    next cache _ =>
        dsimp only at htrouble
        rw [Cache.get_fst] at htrouble
        cases hfound : cache.find? path with
        | none =>
            rw [hfound] at htrouble
            exact htrouble
        | some nodes =>
            rw [hfound] at htrouble
            cases htrouble

section Blame

variable {setup : RenderSetup} {answer : ViewNodes} {top : Option Text} {nodes : List Node}
  (hanswer : ∀ path found, answer path = .ok found → Node.AllRead found)

include hanswer

theorem KeepsEntering.renderInclude (left : Nat) :
    ∀ (site : Site) (found : List Node),
      Denotes top nodes (Served answer) site.view found →
      (∀ name ∈ Text.said top, name ∈ site.stack) →
        KeepsEntering (CacheAnswers setup.source answer)
          (Blames setup.source answer top nodes) (Stencil.renderInclude setup left site)
          (Node.walkAll found) := by
  have hmay : ∀ again, setup.host.Escapes again →
      Blames setup.source answer top nodes again.trouble :=
    fun again _ => .foreign again.isForeign_trouble
  induction left with
  | zero =>
      intro site found hsite _ line path data hmem scope
      apply (Keeps.includeTarget hmay site ⟨line, path, data, scope⟩).bind
      intro target htarget
      cases target with
      | none => exact .pure trivial
      | some target => exact .rejectCycle (.cycle hsite hmem (htarget target rfl))
  | succ left ih =>
      intro site found hsite hstack line path data hmem scope
      apply (Keeps.includeTarget hmay site ⟨line, path, data, scope⟩).bind
      intro target htarget
      cases target with
      | none => exact .pure trivial
      | some target =>
          rcases target with ⟨view, entries⟩
          have hresolve := htarget _ rfl
          dsimp only at hresolve ⊢
          split
          · exact .rejectCycle (.cycle hsite hmem hresolve)
          next hfresh =>
              have hsaid := ViewPath.isEmpty_of_resolve? hresolve
              have hother : some view ≠ top := by
                rintro rfl
                refine hfresh (List.contains_iff_mem.mpr (hstack view ?_))
                rw [Text.said, Option.mem_def, Option.filter_some, hsaid]
                rfl
              have hfetch := (Keeps.fetch_answers setup.source answer view).imp
                (fun trouble htrouble => (Or.inl (.unread hsaid hother htrouble) :
                  Blames setup.source answer top nodes trouble ∨ Recovers trouble))
              apply (Keeps.includeNodes site ⟨line, path, data, scope⟩ hfetch).bind
              intro served hserved
              cases served with
              | none => exact .pure trivial
              | some served =>
                  have hview := hserved served rfl
                  apply (Keeps.addInclude view).bind
                  intro _ _
                  have hscope : Keeps (CacheAnswers setup.source answer)
                      (Blames setup.source answer top nodes) (fun _ => True)
                      (Rendering.onStore fun σ => σ.child scope entries none) :=
                    .onStore fun _ => trivial
                  apply hscope.bind
                  intro inner _
                  have hdenotes : Denotes top nodes (Served answer) (some view) served :=
                    .path hother ⟨hsaid, hview⟩
                  refine .renderAll hmay (.inl (.foreign .unending)) served
                    (ih (site.enter view) served hdenotes ?_) (hanswer view served hview) inner
                  intro name hname
                  exact List.mem_append_left _ (hstack name hname)

theorem Keeps.renderView_blames (setup : RenderSetup) (hnodes : Node.AllRead nodes) :
    Keeps (CacheAnswers setup.source answer) (Blames setup.source answer top nodes)
      (fun _ => True) (Stencil.renderView setup top nodes) := by
  refine .renderAll (fun again _ => .foreign again.isForeign_trouble)
    (.inl (.foreign .unending)) nodes
    (KeepsEntering.renderInclude hanswer _ (Site.top top) nodes .top ?_) hnodes 0
  intro name hname
  exact Option.mem_toList.mpr hname

end Blame

end Rendering

/-! # Errors -/

theorem append_ne_empty {s t : String} (h : s ≠ "" ∨ t ≠ "") : s ++ t ≠ "" := by
  intro hst
  rw [String.append_eq_empty_iff] at hst
  exact h.elim (fun hs => hs hst.1) (fun ht => ht hst.2)

theorem StructureFault.message_ne_empty (fault : StructureFault) : fault.message ≠ "" := by
  cases fault with
  | unterminated directive closer => exact append_ne_empty (.inr (by decide))
  | unterminatedString directive => exact append_ne_empty (.inl (by decide))
  | mismatched found directive => exact append_ne_empty (.inl (append_ne_empty (.inr (by decide))))
  | noCondition directive => exact append_ne_empty (.inr (by decide))
  | badArrayName part => exact append_ne_empty (.inr (by decide))
  | badObjectEntry part => exact append_ne_empty (.inr (by decide))
  | unclosedBlock directive => exact append_ne_empty (.inr (by decide))
  | _ => decide

/-- A message goes before the detail of the form, since it is never empty. -/
theorem StructureFault.said_message (fault : StructureFault) :
    Fact.said (some (.text fault.message)) = some (.text (Text.ofString fault.message)) := by
  have hpoints : fault.message.toList ≠ [] := by
    intro hnil
    exact fault.message_ne_empty (String.toList_eq_nil_iff.mp hnil)
  have hsaid : (Text.ofString fault.message).isEmpty = false := by
    simpa [Text.isEmpty, Text.ofString, Text.ofChars] using hpoints
  simp [Fact.said, Fact.isOn, Fact.value, Value.isOn, hsaid]

namespace ViewError

def IsFaultOf (e : ViewError) (text : String) : Prop :=
  ∃ fault, View.parse text = .error fault ∧
    e.line = some (.number fault.line) ∧ e.detail = some (.text fault.fault.message)

def IsCycleIn (e : ViewError) (viewsType : Text) (view : Option Text) (nodes : List Node) : Prop :=
  ∃ (line : Nat) (path : Text) (data : Option String) (target : Text),
    .inclusion line path data ∈ Node.walkAll nodes ∧
    ViewPath.resolve? viewsType path view = some target ∧
      e.line = some (.number line) ∧
        e.message = Text.ofString "Include cycle detected at '" ++ target ++ Text.ofString "'"

theorem view_within {e : ViewError} {view : Option Text} {outer : Option Fact}
    (hview : e.view = view.map .text)
    (h : outer = view.map .text ∨ ∃ name, view = some name ∧ name.isEmpty = false) :
    (e.within outer none).view = view.map .text := by
  cases view with
  | none =>
      rcases h with rfl | ⟨name, hname, _⟩
      · rw [within, hview]
        rfl
      · cases hname
  | some name =>
      cases hempty : name.isEmpty with
      | false => simp [within, hview, Fact.said, Fact.isOn, Fact.value, Value.isOn, hempty]
      | true =>
          rcases h with rfl | ⟨other, hother, hsaid⟩
          · rw [within, hview, Option.map_some, Fact.said, Option.filter_some]
            split <;> rfl
          · cases hother
            rw [hempty] at hsaid
            cases hsaid

theorem line_within {e : ViewError} {outer : Option Fact} {line : Nat} (hpos : 0 < line)
    (hline : e.line = some (.number line)) : (e.within outer none).line = some (.number line) := by
  have hne : line ≠ 0 := by omega
  simp [within, hline, Fact.said, Fact.isOn, Fact.value, Value.isOn, hne]

end ViewError

theorem View.structureError_fields (fault : StructureError) (view : Option Text) :
    (structureError fault view).view = view.map .text ∧
      (structureError fault view).line = some (.number fault.line) ∧
        (structureError fault view).detail = some (.text fault.fault.message) := by
  cases view with
  | none =>
      refine ⟨rfl, rfl, ?_⟩
      show (Fact.said (some (.text fault.fault.message))).or _ = _
      rw [fault.fault.said_message]
      rfl
  | some name =>
      refine ⟨rfl, rfl, ?_⟩
      show (Fact.said (some (.text fault.fault.message))).or _ = _
      rw [fault.fault.said_message]
      rfl

theorem cycleError_fields (site : Site) (inclusion : Inclusion) (path : Text) :
    (cycleError site inclusion path).view = site.view.map .text ∧
      (cycleError site inclusion path).line = some (.number inclusion.line) ∧
        (cycleError site inclusion path).message =
          Text.ofString "Include cycle detected at '" ++ path ++ Text.ofString "'" := by
  rcases site with ⟨view, stack, depth⟩
  cases view with
  | none => exact ⟨rfl, rfl, rfl⟩
  | some name => exact ⟨rfl, rfl, rfl⟩

/-! # Troubles of a render -/

theorem renderData_error {σ : Store} {data : Value} {trouble : Trouble}
    (h : renderData σ data = .error trouble) : trouble.IsForeign := by
  unfold renderData at h
  split at h
  · cases h
  · split at h
    · cases h
    · cases h
      exact .other _ _

theorem Trouble.eq_toError_of_escape {trouble : Trouble} {view : Option Fact} {e : ViewError}
    (h : trouble.escape view = .view e) : e = trouble.toError view [] := by
  cases trouble <;> cases h <;> rfl

namespace Engine

def viewNodes (engine : Engine) : ViewNodes :=
  Rendering.answersOf engine.source engine.begin

def Serves (engine : Engine) (path : Text) (nodes : List Node) : Prop :=
  engine.viewNodes path = .ok nodes

theorem Reachable.parsed_of_serves {engine : Engine} (h : engine.Reachable) {path : Text}
    {nodes : List Node} (hserves : engine.Serves path nodes) :
    ∃ text, View.parse text = .ok nodes := by
  have hholds : CacheHolds (fun entry => ∃ text, View.parse text = .ok entry.2) engine.cache := by
    refine h.induct (motive := fun engine =>
      CacheHolds (fun entry => ∃ text, View.parse text = .ok entry.2) engine.cache) ?_ ?_ ?_
    · intro engine _ _ _ _ hfresh
      exact hfresh.holds
    · intro engine journal hcache
      exact hcache
    · intro engine host request hcache
      refine holds_perform hcache host request ?_ ?_
      · intro path nodes hparsed
        rcases engine.source.parsed_ok hparsed with ⟨text, _, hparse⟩
        exact ⟨text, hparse⟩
      · rintro path nodes ⟨text, hparse⟩
        exact View.allRead_of_parse hparse
  have hparsed : ∀ nodes, engine.source.parsed path = .ok nodes →
      ∃ text, View.parse text = .ok nodes := by
    intro nodes hnodes
    rcases engine.source.parsed_ok hnodes with ⟨text, _, hparse⟩
    exact ⟨text, hparse⟩
  rcases Rendering.fetch_holds (s := engine.begin) hholds hparsed with
    ⟨result, cache, hfetch, _, hresult⟩
  rw [Serves, viewNodes, Rendering.answersOf, hfetch] at hserves
  dsimp only at hserves
  subst hserves
  rcases hresult with hresult | ⟨found, hfound, htest⟩
  · exact hparsed nodes hresult.symm
  · cases hfound
    exact htest

theorem IsCurrent.parse_of_serves {engine : Engine} {views : MemoryViews} (h : engine.IsCurrent)
    (hshelf : engine.shelf = .memory views) {path : Text} {nodes : List Node}
    (hserves : engine.Serves path nodes) :
    ∃ text, views.text? path = some text ∧ View.parse text = .ok nodes := by
  have hparsed : engine.source.parsed path = .ok nodes := by
    have htest : ∀ found, engine.source.parsed path = .ok found →
        engine.source.parsed (path, found).1 = .ok (path, found).2 := fun found hfound => hfound
    rcases Rendering.fetch_holds (s := engine.begin) h htest with
      ⟨result, cache, hfetch, _, hresult⟩
    rw [Serves, viewNodes, Rendering.answersOf, hfetch] at hserves
    dsimp only at hserves
    subst hserves
    rcases hresult with hresult | ⟨found, hfound, htest⟩
    · exact hresult.symm
    · cases hfound
      exact htest
  rw [source_of_memory hshelf] at hparsed
  rcases ViewSource.parsed_ok hparsed with ⟨text, hread, hparse⟩
  cases htext : views.text? path with
  | none =>
      simp [MemoryViews.source, htext] at hread
  | some stored =>
      simp only [MemoryViews.source, htext, Except.ok.injEq] at hread
      exact ⟨text, by rw [hread], hparse⟩

section Memory

variable {engine : Engine} {views : MemoryViews} (hshelf : engine.shelf = .memory views)
  {trouble : Trouble} (outer : Option Fact)

include hshelf

theorem isFaultOf_of_parsed {path : Text} (hsaid : path.isEmpty = false)
    (h : engine.source.parsed path = .error trouble)
    (hcode : (trouble.toError outer []).code = "PARSE_STRUCTURE") :
    ∃ stored, views.text? path = some stored ∧
      (trouble.toError outer []).view = some (.text path) ∧
        (trouble.toError outer []).IsFaultOf stored := by
  rw [source_of_memory hshelf] at h
  rcases MemoryViews.parsed_error_cases h with ⟨stored, fault, htext, hparse, rfl⟩ | ⟨_, rfl⟩
  · rcases View.structureError_fields fault (some path) with ⟨hview, hline, hdetail⟩
    exact ⟨stored, htext, ViewError.view_within hview (.inr ⟨path, rfl, hsaid⟩), fault, hparse,
      ViewError.line_within (View.line_pos_of_error hparse) hline, hdetail⟩
  · exact absurd (show "VIEW_NOT_FOUND" = "PARSE_STRUCTURE" from hcode) (by decide)

theorem code_ne_cycle_of_parsed {path : Text} (h : engine.source.parsed path = .error trouble) :
    (trouble.toError outer []).code ≠ "INCLUDE_CYCLE" := by
  rw [source_of_memory hshelf] at h
  rcases MemoryViews.parsed_error_cases h with ⟨stored, fault, _, _, rfl⟩ | ⟨_, rfl⟩
  · exact fun hcode => absurd (show "PARSE_STRUCTURE" = "INCLUDE_CYCLE" from hcode) (by decide)
  · exact fun hcode => absurd (show "VIEW_NOT_FOUND" = "INCLUDE_CYCLE" from hcode) (by decide)

variable {top : Option Text} {nodes : List Node}
  (h : Blames engine.source engine.viewNodes top nodes trouble)

include h

theorem isFaultOf_of_blames (hcode : (trouble.toError outer []).code = "PARSE_STRUCTURE") :
    ∃ path stored, some path ≠ top ∧ views.text? path = some stored ∧
      (trouble.toError outer []).view = some (.text path) ∧
        (trouble.toError outer []).IsFaultOf stored := by
  cases h with
  | cycle => exact absurd (show "INCLUDE_CYCLE" = "PARSE_STRUCTURE" from hcode) (by decide)
  | foreign hforeign => exact absurd hcode (hforeign.code_ne (by decide))
  | @unread path _ hsaid hother hparsed =>
      rcases isFaultOf_of_parsed hshelf outer hsaid hparsed hcode with ⟨stored, hlocated⟩
      exact ⟨path, stored, hother, hlocated⟩

theorem isCycleIn_of_blames
    (houter : outer = top.map .text ∨ ∃ name, top = some name ∧ name.isEmpty = false)
    (hlines : ∀ node ∈ Node.walkAll nodes, 0 < node.line)
    (hserved : ∀ path found, engine.Serves path found → ∀ node ∈ Node.walkAll found, 0 < node.line)
    (hcode : (trouble.toError outer []).code = "INCLUDE_CYCLE") :
    ∃ named found, Denotes top nodes engine.Serves named found ∧
      (trouble.toError outer []).view = named.map .text ∧
        (trouble.toError outer []).IsCycleIn engine.viewsType named found := by
  have hsource := source_of_memory hshelf
  cases h with
  | @cycle site inclusion path found hsite hmem hresolve =>
      rcases cycleError_fields site inclusion path with ⟨hview, hline, hmessage⟩
      rw [hsource] at hresolve
      generalize site.view = named at hsite hview hresolve
      have hcycle (hpos : 0 < inclusion.line) :
          ((cycleError site inclusion path).within outer none).IsCycleIn engine.viewsType named
            found :=
        ⟨_, _, _, path, hmem, hresolve, ViewError.line_within hpos hline, hmessage⟩
      cases hsite with
      | top =>
          exact ⟨top, nodes, .top, ViewError.view_within hview houter, hcycle (hlines _ hmem)⟩
      | @path name _ hother hfound =>
          exact ⟨some name, found, .path hother hfound.answer,
            ViewError.view_within hview (.inr ⟨name, rfl, hfound.said⟩),
            hcycle (hserved name found hfound.answer _ hmem)⟩
  | unread hsaid hother hparsed =>
      exact absurd hcode (code_ne_cycle_of_parsed hshelf outer hparsed)
  | foreign hforeign => exact absurd hcode (hforeign.code_ne (by decide))

end Memory

/-! # Renders -/

abbrev Laid (engine : Engine) (top : Option Text) (nodes : List Node) (trouble : Trouble) : Prop :=
  Blames engine.source engine.viewNodes top nodes trouble

section Renders

variable {engine : Engine} (h : engine.Reachable)

theorem cacheAnswers_begin : CacheAnswers engine.source engine.viewNodes engine.cache := by
  intro s hs path
  have hbegin : engine.begin.Answers engine.source engine.viewNodes := fun _ => rfl
  exact hbegin.of_cache hs path

include h

theorem ends_renderOver_laid (host : Host) {top : Option Text} {nodes : List Node}
    (hnodes : Node.AllRead nodes) (data : Value) {s : RenderState}
    (hs : CacheAnswers engine.source engine.viewNodes s.cache) :
    Rendering.Ends (CacheAnswers engine.source engine.viewNodes) (engine.Laid top nodes)
      (fun _ => True) (renderOver (engine.setup host) engine.helpers top data nodes s) := by
  have hserved : ∀ path found, engine.viewNodes path = .ok found → Node.AllRead found := by
    intro path found hfound
    rcases h.parsed_of_serves hfound with ⟨text, hparse⟩
    exact View.allRead_of_parse hparse
  have hview : Rendering.Keeps (CacheAnswers engine.source engine.viewNodes)
      (engine.Laid top nodes) (fun _ => True) (renderView (engine.setup host) top nodes) :=
    Rendering.Keeps.renderView_blames hserved (engine.setup host) hnodes
  cases hdata : renderData s.store data with
  | error trouble =>
      have hget : (get : Rendering RenderState) s = (.ok s, s) := rfl
      rw [renderOver, bind_def, hget]
      dsimp only
      rw [bind_def, Rendering.ofExcept, hdata]
      exact .error hs (.foreign (renderData_error hdata))
  | ok entries =>
      have hends := hview { s with store := s.store.restart entries engine.helpers } hs
      rw [Rendering.renderOver_eq hdata]
      generalize renderView (engine.setup host) top nodes _ = run at hends ⊢
      rcases run with ⟨trouble | output, after⟩
      · exact .error hends.cache (hends.trouble trouble rfl)
      · exact .ok hends.cache trivial

theorem renderSource_fails {host : Host} {text : String} {view : Option Text} {data : Value}
    {e : ViewError} (he : (engine.renderSource host text view data).1 = .error (.view e)) :
    (∃ fault, View.parse text = .error fault ∧
      e = (View.structureError fault view).within (view.map .text) none) ∨
    ∃ nodes trouble, View.parse text = .ok nodes ∧ engine.Laid view nodes trouble ∧
      e = trouble.toError (view.map .text) [] := by
  cases hparse : View.parse text with
  | error fault =>
      refine .inl ⟨fault, rfl, ?_⟩
      rw [renderSource, run_fst, renderText, hparse] at he
      exact (Escape.view.inj (Except.error.inj he)).symm
  | ok nodes =>
      have hends : ∀ s : RenderState, s.store = engine.store → s.cache = engine.cache →
          Rendering.Ends (CacheAnswers engine.source engine.viewNodes) (engine.Laid view nodes)
            (fun _ => True) (renderText (engine.setup host) engine.helpers text view data s) := by
        intro s _ hcache
        rw [renderText, hparse]
        exact ends_renderOver_laid h host (View.allRead_of_parse hparse) data
          (hcache ▸ cacheAnswers_begin)
      rcases (engine.run_cases view hends).2 with ⟨rendered, hok⟩ | ⟨trouble, hlaid, herror⟩
      · cases hok.symm.trans he
      · have hescape := Except.error.inj (herror.symm.trans he)
        exact .inr ⟨nodes, trouble, rfl, hlaid, Trouble.eq_toError_of_escape hescape⟩

theorem render_fails {host : Host} {name : Text} {data : Value} {e : ViewError}
    (he : (engine.render host name data).1 = .error (.view e)) :
    ∃ trouble, e = trouble.toError (some (.text name)) [] ∧
      (trouble = .view (ViewPath.outsideError name) ∨
        ∃ path, path.isEmpty = false ∧
          (engine.source.parsed path = .error trouble ∨
            ∃ nodes, engine.Serves path nodes ∧ engine.Laid (some path) nodes trouble)) := by
  have hends : ∀ s : RenderState, s.store = engine.store → s.cache = engine.cache →
      Rendering.Ends (CacheAnswers engine.source engine.viewNodes)
        (fun trouble => trouble = .view (ViewPath.outsideError name) ∨
          ∃ path, path.isEmpty = false ∧
            (engine.source.parsed path = .error trouble ∨
              ∃ nodes, engine.Serves path nodes ∧ engine.Laid (some path) nodes trouble))
        (fun _ => True) (renderNamed (engine.setup host) engine.helpers name data s) := by
    intro s _ hcache
    have hs : CacheAnswers engine.source engine.viewNodes s.cache := hcache ▸ cacheAnswers_begin
    unfold renderNamed ViewPath.resolve
    cases hpath : ViewPath.resolve? (engine.setup host).source.viewsType name none with
    | none => exact .error hs (.inl rfl)
    | some path =>
        have hsaid := ViewPath.isEmpty_of_resolve? hpath
        have hfetch := Rendering.Keeps.fetch_answers (engine.setup host).source engine.viewNodes
          path s hs
        dsimp only
        rw [bind_def]
        generalize Rendering.fetch (engine.setup host).source path s = run at hfetch ⊢
        rcases run with ⟨trouble | nodes, after⟩
        · exact .error hfetch.cache (.inr ⟨path, hsaid, .inl (hfetch.trouble trouble rfl)⟩)
        · have hserves : engine.Serves path nodes := hfetch.value nodes rfl
          rcases h.parsed_of_serves hserves with ⟨text, hparse⟩
          have hover : Rendering.Ends _ _ _
              (renderOver (engine.setup host) engine.helpers (some path) data nodes after) :=
            ends_renderOver_laid h host (View.allRead_of_parse hparse) data hfetch.cache
          exact ⟨hover.cache, hover.value, fun trouble htrouble =>
            .inr ⟨path, hsaid, .inr ⟨nodes, hserves, hover.trouble trouble htrouble⟩⟩⟩
  rcases (engine.run_cases (some name) hends).2 with ⟨rendered, hok⟩ | ⟨trouble, hmay, herror⟩
  · cases hok.symm.trans he
  · have hescape := Except.error.inj (herror.symm.trans he)
    exact ⟨trouble, Trouble.eq_toError_of_escape hescape, hmay⟩

theorem Reachable.line_pos_of_serves {path : Text} {nodes : List Node}
    (hserves : engine.Serves path nodes) : ∀ node ∈ Node.walkAll nodes, 0 < node.line := by
  rcases h.parsed_of_serves hserves with ⟨text, hparse⟩
  exact View.line_pos_of_parse hparse

variable {views : MemoryViews} (hshelf : engine.shelf = .memory views) {host : Host}
  {data : Value} {e : ViewError}

include hshelf

theorem renderSource_blames {text : String} {view : Option Text}
    (he : (engine.renderSource host text view data).1 = .error (.view e)) :
    (e.code = "PARSE_STRUCTURE" →
      ∃ named found,
        Denotes view text (fun path stored => views.text? path = some stored) named found ∧
          e.view = named.map .text ∧ e.IsFaultOf found) ∧
    (e.code = "INCLUDE_CYCLE" →
      ∃ nodes named found, View.parse text = .ok nodes ∧
        Denotes view nodes engine.Serves named found ∧
          e.view = named.map .text ∧ e.IsCycleIn engine.viewsType named found) := by
  rcases renderSource_fails h he with
    ⟨fault, hparse, rfl⟩ | ⟨nodes, trouble, hparse, hblames, rfl⟩
  · constructor
    · intro _
      rcases View.structureError_fields fault view with ⟨hview, hline, hdetail⟩
      exact ⟨view, text, .top, ViewError.view_within hview (.inl rfl), fault, hparse,
        ViewError.line_within (View.line_pos_of_error hparse) hline, hdetail⟩
    · intro hcode
      exact absurd (show "PARSE_STRUCTURE" = "INCLUDE_CYCLE" from hcode) (by decide)
  · constructor
    · intro hcode
      rcases isFaultOf_of_blames hshelf _ hblames hcode with ⟨path, stored, hne, htext, hlocated⟩
      exact ⟨some path, stored, .path hne htext, hlocated⟩
    · intro hcode
      rcases isCycleIn_of_blames hshelf _ hblames (.inl rfl) (View.line_pos_of_parse hparse)
        (fun _ _ => h.line_pos_of_serves) hcode with ⟨named, found, hlocated⟩
      exact ⟨nodes, named, found, hparse, hlocated⟩

theorem render_blames {name : Text} (he : (engine.render host name data).1 = .error (.view e)) :
    (e.code = "PARSE_STRUCTURE" →
      ∃ path stored, views.text? path = some stored ∧
        e.view = some (.text path) ∧ e.IsFaultOf stored) ∧
    (e.code = "INCLUDE_CYCLE" →
      ∃ path found, engine.Serves path found ∧
        e.view = some (.text path) ∧ e.IsCycleIn engine.viewsType (some path) found) := by
  rcases render_fails h he with ⟨trouble, rfl, rfl | ⟨path, hsaid, hunread | hserved⟩⟩
  · constructor
    · intro hcode
      exact absurd (show "VIEW_NOT_FOUND" = "PARSE_STRUCTURE" from hcode) (by decide)
    · intro hcode
      exact absurd (show "VIEW_NOT_FOUND" = "INCLUDE_CYCLE" from hcode) (by decide)
  · constructor
    · intro hcode
      rcases isFaultOf_of_parsed hshelf _ hsaid hunread hcode with ⟨stored, hlocated⟩
      exact ⟨path, stored, hlocated⟩
    · intro hcode
      exact absurd hcode (code_ne_cycle_of_parsed hshelf _ hunread)
  · rcases hserved with ⟨nodes, hserves, hblames⟩
    constructor
    · intro hcode
      rcases isFaultOf_of_blames hshelf _ hblames hcode with ⟨other, stored, _, hlocated⟩
      exact ⟨other, stored, hlocated⟩
    · intro hcode
      rcases isCycleIn_of_blames hshelf _ hblames (.inr ⟨path, rfl, hsaid⟩)
        (h.line_pos_of_serves hserves) (fun _ _ => h.line_pos_of_serves) hcode with
        ⟨named, found, hnamed, hlocated⟩
      cases hnamed with
      | top => exact ⟨path, nodes, hserves, hlocated⟩
      | path _ hfound => exact ⟨_, found, hfound, hlocated⟩

end Renders

/--
A render over views in memory that fails for the structure of a view names the view at fault and
the line. A malformed view is the one whose text is malformed by itself, in the same way and on the
same line. An include that would never end stands on that line, among the nodes of the view that
is named, and leads from there to the path that the message tells. The view at the top is named
as it is given, if it is; every other view goes by its path, and its nodes are those that the engine
serves, which is what its text is parsed to if the cache is current.
-/
theorem Reachable.failures_located {engine : Engine} (h : engine.Reachable) {views : MemoryViews}
    (hshelf : engine.shelf = .memory views) (host : Host) (data : Value) (e : ViewError) :
    (∀ (text : String) (view : Option Text),
      (engine.renderSource host text view data).1 = .error (.view e) →
        (e.code = "PARSE_STRUCTURE" →
          ∃ named found,
            Denotes view text (fun path stored => views.text? path = some stored) named found ∧
              e.view = named.map .text ∧ e.IsFaultOf found) ∧
        (e.code = "INCLUDE_CYCLE" →
          ∃ nodes named found, View.parse text = .ok nodes ∧
            Denotes view nodes engine.Serves named found ∧
              e.view = named.map .text ∧ e.IsCycleIn engine.viewsType named found)) ∧
    (∀ name : Text, (engine.render host name data).1 = .error (.view e) →
      (e.code = "PARSE_STRUCTURE" →
        ∃ path stored, views.text? path = some stored ∧
          e.view = some (.text path) ∧ e.IsFaultOf stored) ∧
      (e.code = "INCLUDE_CYCLE" →
        ∃ path found, engine.Serves path found ∧
          e.view = some (.text path) ∧ e.IsCycleIn engine.viewsType (some path) found)) ∧
    (engine.IsCurrent → ∀ path found, engine.Serves path found →
      ∃ stored, views.text? path = some stored ∧ View.parse stored = .ok found) := by
  exact ⟨fun _ _ => renderSource_blames h hshelf, fun _ => render_blames h hshelf,
    fun hcurrent _ _ => hcurrent.parse_of_serves hshelf⟩

def brokenViews : GivenViews where
  viewsType := "html"
  views :=
    [ ("page.html", "1\n@include('parts/row')"),
      ("parts/row.html", "2\n3@include('./cell', \x7b \"n\": 1 \x7d)"),
      ("parts/cell.html", "4@if(n)\n5"),
      ("ring.html", "\n\n@include('ring')") ]

def cachingEntries : Entries Value :=
  Entries.merge ViewSettings.standard.entries [(.str "cache", .bool true)]

def brokenEngine : Engine where
  settings := ⟨.ofEntries cachingEntries, .standard⟩
  viewsType := "html"
  shelf := .memory brokenViews.views
  files := ⟨[], []⟩
  cache := some .empty
  helpers := builtinHelpers
  store := .ofData [] []
  journal := []

theorem start_broken : Engine.start false .standard [(.str "cache", .bool true)] (some brokenViews)
    ⟨[], []⟩ (.ofData [] []) [] = .ok brokenEngine := by
  have hchecked : checkViewSettings ⟨[], []⟩ (.ofData [] []) cachingEntries = .ok () := by
    cbv
  have hcache : (ViewSettings.ofEntries cachingEntries).cache = true := by
    cbv
  have hbare : bare false .standard [(.str "cache", .bool true)] (some brokenViews) ⟨[], []⟩
      (.ofData [] []) = .ok brokenEngine := by
    rw [cachingEntries] at hchecked hcache
    simp only [bare, hchecked, hcache]
    rfl
  have hall : brokenEngine.registerAll (.map []) = (.ok (), brokenEngine) := rfl
  rw [Engine.start, hbare]
  dsimp only [bind, Except.bind]
  rw [hall]
  rfl

def codeOf : Escape → Option String
  | .view e => some e.code
  | _ => none

theorem exists_of_code {α : Type} {result : Except Escape α} {code : String}
    (h : (result.map fun _ => ()).mapError codeOf = .error (some code)) :
    ∃ e, result = .error (.view e) ∧ e.code = code := by
  rcases result with escape | a
  · cases escape with
    | view e => exact ⟨e, rfl, Option.some.inj (Except.error.inj h)⟩
    | failure failure => cases h
    | unending => cases h
  · cases h

theorem Reachable.failures_located_broken :
    ∃ (engine : Engine) (cell ring : ViewError), engine.Reachable ∧
      engine.shelf = .memory brokenViews.views ∧
      (engine.render .none "page" .null).1 = .error (.view cell) ∧ cell.code = "PARSE_STRUCTURE" ∧
      (∃ path stored, brokenViews.views.text? path = some stored ∧
        cell.view = some (.text path) ∧ cell.IsFaultOf stored) ∧
      (engine.renderSource .none "@include('ring')" none .null).1 = .error (.view ring) ∧
      ring.code = "INCLUDE_CYCLE" ∧
      ∃ nodes named found, View.parse "@include('ring')" = .ok nodes ∧
        Denotes none nodes engine.Serves named found ∧
          ring.view = named.map .text ∧ ring.IsCycleIn engine.viewsType named found := by
  have hreachable : brokenEngine.Reachable := .start start_broken
  have hcell : ∃ e, (brokenEngine.render .none "page" .null).1 = .error (.view e) ∧
      e.code = "PARSE_STRUCTURE" :=
    exists_of_code (by decide +kernel)
  have hring : ∃ e, (brokenEngine.renderSource .none "@include('ring')" none .null).1 =
      .error (.view e) ∧ e.code = "INCLUDE_CYCLE" :=
    exists_of_code (by decide +kernel)
  rcases hcell with ⟨cell, hcell, hcellCode⟩
  rcases hring with ⟨ring, hring, hringCode⟩
  have hcellAt := (Reachable.failures_located hreachable rfl .none .null cell).2.1 "page" hcell
  have hringAt := (Reachable.failures_located hreachable rfl .none .null ring).1 _ none hring
  exact ⟨brokenEngine, cell, ring, hreachable, rfl, hcell, hcellCode, hcellAt.1 hcellCode,
    hring, hringCode, hringAt.2 hringCode⟩

end Engine
end Stencil
