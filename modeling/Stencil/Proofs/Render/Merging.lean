import Stencil.Proofs.Render.Isolation
import Stencil.Proofs.Renaming.Flattening

/-!
# Includes over merged data

An include renders its view in a scope inside the one it stands in. It gives the same text as the
view by itself, over everything that is seen there with the data of the include merged in.
-/

namespace Stencil

variable {ρ : Renaming} {floor : Nat}

/-! # Merged bindings -/

namespace Store

def merged (σ : Store) (place : Nat) (data : Entries Value) : Entries Value :=
  Entries.merge (σ.bindings place) (Entries.ofPairs data)

def stand (σ : Store) (bindings : Entries Value) : Nat × Store :=
  (σ.scopes.size, { σ with scopes := σ.scopes.push ⟨[], bindings, none⟩ })

section Merged

variable {σ : Store} {place : Nat} (data : Entries Value)

theorem distinct_merged : (σ.merged place data).Distinct :=
  (σ.distinct_bindings place).merge _

theorem get?_merged (hkeyed : σ.IsKeyed) (key : Key) :
    (σ.merged place data).get? key =
      ((Entries.ofPairs data).get? key).or (σ.bound? place key) := by
  rw [merged, Entries.get?_merge (Entries.distinct_ofPairs data), hkeyed.get?_bindings]

theorem keys_prefix_merged :
    (Entries.merge [] σ.data).keys <+: (σ.merged place data).keys := by
  have hbindings : (Entries.merge [] σ.data).keys <+: (σ.bindings place).keys := by
    rw [bindings]
    induction σ.path place with
    | nil => exact List.prefix_refl _
    | cons p rest ih => exact ih.trans (Entries.keys_prefix_merge _ _)
  exact hbindings.trans (Entries.keys_prefix_merge _ _)

section Closed

variable (hclosed : σ.IsClosed) (hplace : place < σ.scopes.size)

include hclosed hplace

theorem merged_renamed (hdata : Entries.Renamed .identity σ.extent data data) :
    Entries.Renamed .identity σ.extent (σ.merged place data) (σ.merged place data) :=
  (hclosed.embeds.bindings hplace).merge hdata.ofPairs

theorem bindings_child :
    (σ.child place data none).2.bindings σ.scopes.size = σ.merged place data := by
  have hframes := Frames.child σ place data none
  have hinner : (σ.child place data none).2.scopes[σ.scopes.size]? =
      some ⟨σ.path place, .ofPairs data, none⟩ := Array.getElem?_push_size
  rw [bindings, path, outer, hinner, List.foldr_cons, own, hinner,
    hframes.foldr_own_eq (hclosed.embeds.path_lt hplace), hframes.data]
  rfl

theorem shows_child (hkeyed : σ.IsKeyed) {flat : Store} {e : Extent}
    (hbound : ∀ key, flat.bound? floor key = (σ.merged place data).get? key)
    (hbindings : flat.bindings floor = σ.merged place data)
    (hmerged : Entries.Renamed ρ e (σ.merged place data) (σ.merged place data)) :
    Shows ρ e flat (σ.child place data none).2 floor σ.scopes.size where
  bound? k l hkey := by
    rw [hbound, bound?_child (hclosed.embeds.path_lt hplace), ← get?_merged data hkeyed]
    exact hmerged.get? hkey
  bindings := by
    rw [hbindings, bindings_child data hclosed hplace]
    exact hmerged

end Closed

end Merged

/-! # Flat stores -/

theorem flattens_child {σ flat : Store} {place : Nat} {data own : Entries Value}
    (hclosed : σ.IsClosed) (hplace : place < σ.scopes.size)
    (hhelpers : List.Forall₂ (fun a b => b.1 = a.1 ∧ Value.Renamed ρ flat.extent a.2 b.2)
      flat.helpers σ.helpers)
    (hshared : List.Forall₂ (Container.Renamed ρ flat.extent) flat.shared.toList σ.shared.toList)
    (hsize : flat.scopes.size = floor + 1) (hfloor : floor ≤ σ.scopes.size)
    (hplaces : ∀ i, ρ.place (floor + i) = σ.scopes.size + i)
    (hmarks : ∀ i, ρ.mark (flat.nextMark + i) = σ.nextMark + i)
    (hground : flat.scopes[floor]? = some ⟨[], own, none⟩) (hown : own.Distinct)
    (hshows : Shows ρ flat.extent flat (σ.child place data none).2 floor σ.scopes.size)
    (hfront : ∀ p < floor, ρ.place p < σ.scopes.size ∧
      Settled ρ floor flat (σ.child place data none).2 p) :
    Flattens ρ floor flat (σ.child place data none).2 := by
  have hother : ρ.place floor = σ.scopes.size := hplaces 0
  have hsize' : (σ.child place data none).2.scopes.size = σ.scopes.size + 1 := Array.size_push _
  have hinner : (σ.child place data none).2.scopes[σ.scopes.size]? =
      some ⟨σ.path place, .ofPairs data, none⟩ := Array.getElem?_push_size
  refine ⟨hhelpers, hshared, ?_, ?_, hmarks, ?_, ?_, ?_, ?_, ?_, ?_, ?_, ?_⟩
  · rw [hsize, hsize']
    exact Nat.succ_le_succ hfloor
  · intro i
    rw [hsize, hsize', Nat.add_assoc, hplaces, Nat.add_assoc]
  · rw [hsize]
    exact Nat.lt_succ_self _
  · rw [hother, hsize']
    exact Nat.lt_succ_self _
  · intro p hp
    rw [hother]
    exact (hfront p hp).1
  · intro p hp
    have hbehind := hplaces (p - floor)
    rw [Nat.add_sub_cancel' (Nat.le_of_lt hp)] at hbehind
    omega
  · intro p hp
    rcases Nat.lt_or_eq_of_le hp with hlt | rfl
    · exact (hfront p hlt).2
    · refine ⟨?_, ?_, ?_, ?_⟩
      · rw [outer, hground]
        exact fun _ hmem => absurd hmem List.not_mem_nil
      · rw [hother, outer, hinner]
        exact hclosed.embeds.path_lt hplace
      · have hthere : p < flat.extent.scopes := Nat.lt_of_lt_of_eq (Nat.lt_succ_self p) hsize.symm
        rw [hother, receiver, receiver, hground, hinner, ← hother]
        exact .scope hthere
      · rw [hother]
        exact hshows
  · intro p hp hbehind
    rw [hsize] at hp
    omega
  · rw [Store.own, hground]
    exact hown
  · rw [hother, Store.own, hinner]
    exact Entries.distinct_ofPairs data

theorem Frames.stand (σ : Store) (bindings : Entries Value) :
    Frames none σ (σ.stand bindings).2 where
  data := rfl
  helpers := rfl
  shared := rfl
  size_le := by
    rw [Store.stand, Array.size_push]
    exact Nat.le_succ _
  mark_le := Nat.le_refl _
  kept old hold _ := by
    rw [Store.stand, Array.getElem?_push, if_neg (Nat.ne_of_lt hold)]

theorem IsClosed.settled {σ flat τ : Store} (hclosed : σ.IsClosed) (hflat : Frames none σ flat)
    (hτ : Frames none σ τ) {p : Nat} (hp : p < σ.scopes.size) :
    Settled .identity σ.scopes.size flat τ p := by
  have hpath := hclosed.embeds.path_lt hp
  have hsame : ∀ q, Renaming.identity.place q = q := fun _ => rfl
  refine ⟨?_, ?_, ?_, ?_, ?_⟩
  · rw [hflat.outer_eq hp]
    exact fun q hq => hpath q (List.mem_cons_of_mem p hq)
  · rw [hsame, hsame, hτ.outer_eq hp]
    exact fun q hq => hpath q (List.mem_cons_of_mem p hq)
  · rw [hsame, hflat.receiver_eq hp, hτ.receiver_eq hp]
    exact (hclosed.embeds.receiver hp).mono hflat.within
  · intro k l hkey
    rw [hsame, hflat.bound?_eq hpath, hτ.bound?_eq hpath]
    exact rel_imp (fun _ _ hv => hv.mono hflat.within) (hclosed.embeds.bound? hp hkey)
  · rw [hsame, hflat.bindings_eq hpath, hτ.bindings_eq hpath]
    exact (hclosed.embeds.bindings hp).mono hflat.within

section Stand

variable {σ : Store} {place : Nat} (data : Entries Value)

theorem bindings_stand :
    (σ.stand (σ.merged place data)).2.bindings σ.scopes.size = σ.merged place data := by
  have hlast : (σ.stand (σ.merged place data)).2.scopes[σ.scopes.size]? =
      some ⟨[], σ.merged place data, none⟩ := Array.getElem?_push_size
  have hprefix : Entries.merge ([] ++ Entries.merge [] σ.data) (σ.merged place data) =
      [] ++ σ.merged place data :=
    Entries.merge_of_prefix (distinct_merged data) (keys_prefix_merged data)
  rw [bindings, path, outer, hlast, List.foldr_cons, own, hlast]
  exact hprefix

theorem bound?_stand (hkeyed : σ.IsKeyed) (key : Key) :
    (σ.stand (σ.merged place data)).2.bound? σ.scopes.size key =
      (σ.merged place data).get? key := by
  have hlast : (σ.stand (σ.merged place data)).2.scopes[σ.scopes.size]? =
      some ⟨[], σ.merged place data, none⟩ := Array.getElem?_push_size
  rw [bound?, path, outer, hlast, List.findSome?_cons, own, hlast]
  dsimp only
  cases hfound : (σ.merged place data).get? key with
  | some value => rfl
  | none =>
      rw [get?_merged data hkeyed, Option.or_eq_none_iff] at hfound
      have hnone := hfound.2
      unfold bound? at hnone
      split at hnone
      · cases hnone
      · exact hnone

theorem flattens_stand (hclosed : σ.IsClosed) (hkeyed : σ.IsKeyed)
    (hplace : place < σ.scopes.size) (hdata : Entries.Renamed .identity σ.extent data data) :
    Flattens .identity σ.scopes.size (σ.stand (σ.merged place data)).2
      (σ.child place data none).2 := by
  have hframes := Frames.stand σ (σ.merged place data)
  have hframes' := Frames.child σ place data none
  have hmerged := (merged_renamed data hclosed hplace hdata).mono hframes.within
  have hshows := shows_child data hclosed hplace hkeyed (bound?_stand data hkeyed)
    (bindings_stand data) hmerged
  refine flattens_child hclosed hplace ?_ ?_ (Array.size_push _) (Nat.le_refl _) (fun _ => rfl)
    (fun _ => rfl) Array.getElem?_push_size (distinct_merged data) hshows
    fun p hp => ⟨hp, hclosed.settled hframes hframes' hp⟩
  · exact hclosed.embeds.helpers.imp fun _ _ hentry => ⟨hentry.1, hentry.2.mono hframes.within⟩
  · exact hclosed.embeds.shared.imp fun _ _ hc => hc.mono hframes.within

end Stand

end Store

/-! # The data of an include -/

namespace Rendering

/-- The data of an include is what its expression comes to, if that is a mapping, and none else. -/
structure Gives (host : Host) (inclusion : Inclusion) (s : RenderState) (data : Entries Value)
    (after : RenderState) : Prop where
  run : includeData host inclusion s = (.ok data, after)
  absent : inclusion.data = none → data = []
  present : ∀ source, inclusion.data = some source → ∃ value evaluated,
    valueOf host inclusion.scope source s = (.ok value, evaluated) ∧
      data = (evaluated.store.entries? value).getD []
  counts : s.store.Counts after.store
  cache : after.cache = s.cache
  includes : after.includes = s.includes

theorem exists_includeData {host : Host} {inclusion : Inclusion} {s evaluated : RenderState}
    {source : String} {value : Value} (hdata : inclusion.data = some source)
    (hvalue : valueOf host inclusion.scope source s = (.ok value, evaluated)) :
    ∃ events, includeData host inclusion s =
      (.ok ((evaluated.store.entries? value).getD []), { evaluated with events := events }) := by
  have hget : (get : Rendering RenderState) evaluated = (.ok evaluated, evaluated) := rfl
  rw [includeData, hdata]
  dsimp only
  rw [bind_def, hvalue]
  dsimp only
  rw [bind_def, hget]
  dsimp only
  cases evaluated.store.entries? value with
  | some entries => exact ⟨evaluated.events, rfl⟩
  | none =>
      exact ⟨.expressionIgnored source "include data is not a mapping" :: evaluated.events, rfl⟩

theorem gives_cases {host : Host} (hhost : host.ChangesNothing) (inclusion : Inclusion)
    (s : RenderState) :
    (∃ data after, Gives host inclusion s data after) ∨
      ∃ again after, host.Escapes again ∧
        includeData host inclusion s = (.error again.trouble, after) := by
  cases hdata : inclusion.data with
  | none =>
      refine .inl ⟨[], s, ?_, fun _ => rfl, ?_, .refl _, rfl, rfl⟩
      · rw [includeData, hdata]
        rfl
      · intro source hsource
        cases hdata.symm.trans hsource
  | some source =>
      rcases valueOf_cases host inclusion.scope source s with
        ⟨value, evaluated, hvalue, hstore, hcache, hincludes⟩ | ⟨again, after, hagain, hvalue⟩
      case inr =>
        refine .inr ⟨again, after, hagain, ?_⟩
        rw [includeData, hdata]
        dsimp only
        rw [bind_def, hvalue]
      refine .inl ?_
      rcases exists_includeData hdata hvalue with ⟨events, hrun⟩
      have hcounts : s.store.Counts evaluated.store := by
        rw [hstore]
        exact Evaluation.leavesScopes_evalSource hhost inclusion.scope source s.store
      refine ⟨_, _, hrun, ?_, ?_, hcounts, hcache, hincludes⟩
      · intro hnone
        cases hdata.symm.trans hnone
      · intro other hother
        cases hdata.symm.trans hother
        exact ⟨value, evaluated, hvalue, rfl⟩

section Data

variable {host : Host} {inclusion : Inclusion} {s after : RenderState} {data : Entries Value}
  (h : Gives host inclusion s data after)

include h

theorem Gives.isKeyed (hkeyed : s.store.IsKeyed) : after.store.IsKeyed := by
  rcases h.counts with ⟨mark, calls, _, hstore⟩
  rw [hstore]
  exact ⟨hkeyed.data, hkeyed.own⟩

theorem Gives.within (hhost : host.IsPure) (source : ViewSource) (hclosed : s.store.IsClosed)
    (hscope : inclusion.scope < s.store.scopes.size) :
    after.store.IsClosed ∧ Entries.Renamed .identity after.store.extent data data := by
  have hfollows : Follows (pairingOf (Store.Embeds .identity) source s s) s.store.extent
      (Entries.Renamed .identity) (includeData host inclusion) (includeData host inclusion) :=
    .includeData (Store.simulation_embeds .identity 0) ⟨Nat.zero_le _, hscope⟩ hhost
  have hafter := isClosed_of_follows hclosed hfollows
  have houtcome := (hfollows.agrees (fun _ => id) (follows_self source hclosed) (.refl _)).outcome
  rw [h.run] at houtcome hafter
  cases houtcome with
  | ok hdata => exact ⟨hafter, hdata⟩

end Data

/-! # Includes taken apart -/

def IsCycle (run : Except Trouble Text × RenderState) : Prop :=
  ∃ e : ViewError, e.code = ErrorForm.includeCycle.code ∧ run.1 = .error (.view e)

section Includes

variable {setup : RenderSetup} {answer : ViewNodes} {site : Site} {inclusion : Inclusion}
  {s s₁ : RenderState} {data : Entries Value} {path : Text}

theorem includeNodes_answered (hanswers : s.Answers setup.source answer) (path : Text) :
    ∃ after : RenderState, after.store = s.store ∧ after.includes = s.includes ∧
      after.Answers setup.source answer ∧
      (∀ nodes, answer path = .ok nodes →
        includeNodes setup site inclusion path s = (.ok (some nodes), after)) ∧
      ∀ e : ViewError, answer path = .error (.view e) → e.code ∉ recoverableCodes →
        includeNodes setup site inclusion path s = (.error (.view e), after) := by
  let s' : RenderState := { s with events := .includeLoading path (site.depth + 1) :: s.events }
  have hbegun : s'.Answers setup.source answer := hanswers.of_cache rfl
  have hnote : note (.includeLoading path (site.depth + 1)) s = (.ok (), s') := rfl
  have hfetched : attempt (fetch setup.source path) s' =
      (.ok (answer path), (fetch setup.source path s').2) := by
    rw [← hbegun path]
    rfl
  refine ⟨(fetch setup.source path s').2, ?_, ?_, answers_fetch hbegun path, ?_, ?_⟩
  · rw [store_fetch]
  · rw [includes_fetch]
  · intro nodes hok
    rw [includeNodes, bind_def, hnote]
    dsimp only
    rw [bind_def, hfetched, hok]
    rfl
  · intro e herror hfatal
    have hcontains : recoverableCodes.contains e.code = false := by
      simpa using hfatal
    rw [includeNodes, bind_def, hnote]
    dsimp only
    rw [bind_def, hfetched, herror]
    dsimp only
    rw [hcontains]
    rfl

/--
An include of a view that is served renders its nodes in a scope of its own, unless it would never
end. One of a view that is malformed fails.
-/
theorem renderInclude_served (hgives : Gives setup.host inclusion s data s₁)
    (hpath : ViewPath.resolve? setup.source.viewsType inclusion.path site.view = some path)
    (hanswers : s₁.Answers setup.source answer) (left : Nat) :
    IsCycle (renderInclude setup left site inclusion s) ∨
      ∃ less s₂, less < left ∧ s₂.store = s₁.store ∧ s₂.includes = s₁.includes ∧
        s₂.Answers setup.source answer ∧
        (∀ nodes, answer path = .ok nodes →
          renderInclude setup left site inclusion s =
            renderAll setup.host (renderInclude setup less (site.enter path))
              s₂.store.scopes.size nodes
              { s₂ with
                store := (s₂.store.child inclusion.scope data none).2
                includes := path :: s₂.includes }) ∧
        ∀ e : ViewError, answer path = .error (.view e) → e.code ∉ recoverableCodes →
          renderInclude setup left site inclusion s = (.error (.view e), s₂) := by
  have htarget : includeTarget setup site inclusion s = (.ok (some (path, data)), s₁) := by
    rw [includeTarget, bind_def, hgives.run]
    dsimp only
    rw [ViewPath.resolve, hpath]
    rfl
  cases left with
  | zero =>
      refine .inl ⟨cycleError site inclusion path, rfl, ?_⟩
      rw [renderInclude, bind_def, htarget]
      rfl
  | succ left =>
      rw [renderInclude, bind_def, htarget]
      dsimp only
      split
      · exact .inl ⟨cycleError site inclusion path, rfl, rfl⟩
      rcases includeNodes_answered hanswers path with
        ⟨s₂, hstore, hincludes, hothers, hok, hfails⟩
      refine .inr ⟨left, s₂, Nat.lt_succ_self left, hstore, hincludes, hothers, ?_, ?_⟩
      · intro nodes hnodes
        rw [bind_def, hok nodes hnodes]
        rfl
      · intro e herror hfatal
        rw [bind_def, hfails e herror hfatal]

/-! # Views over merged bindings -/

/-- Renders a view by itself, in a scope that stands under no other, over some bindings. -/
def renderApart (setup : RenderSetup) (path : Text) (bindings : Entries Value)
    (nodes : List Node) : Rendering Text := do
  let scope ← onStore fun σ => σ.stand bindings
  renderAll setup.host (renderInclude setup setup.maxDepth (Site.top (some path))) scope nodes

/-- Whether a run ends as another does, and has included the same views since. -/
structure Matches (run apart : Except Trouble Text × RenderState) (before : List Text) : Prop where
  result : run.1 = apart.1
  includes : run.2.includes = apart.2.includes ++ before

theorem renderAll_flat (hhost : setup.host.IsPure) {less : Nat} (hless : less ≤ setup.maxDepth)
    {t deep : RenderState} (hflat : t.store.Flattens ρ floor deep.store)
    (hanswers : t.Answers setup.source answer) (hothers : deep.Answers setup.source answer)
    (hincludes : t.includes = []) (nodes : List Node) :
    IsCycle (renderAll setup.host (renderInclude setup less (site.enter path)) (ρ.place floor)
      nodes deep) ∨
    Matches
      (renderAll setup.host (renderInclude setup less (site.enter path)) (ρ.place floor) nodes deep)
      (renderAll setup.host (renderInclude setup setup.maxDepth (Site.top (some path))) floor
        nodes t) deep.includes := by
  let V : Pairing :=
    { Related := Store.Flattens ρ floor
      source := setup.source
      answer := answer
      excused := fun trouble =>
        ∃ e : ViewError, e.code = ErrorForm.includeCycle.code ∧ trouble = .view e
      included := []
      includedOther := deep.includes }
  have hsites : Site.Narrows V.excused setup.maxDepth (Site.top (some path)) less
      (site.enter path) := by
    refine .cut (fun site inclusion path => ⟨_, rfl, rfl⟩) hless rfl ?_
    intro name hname
    have hsaid : name ∈ some path := (Option.mem_filter_iff.mp (Option.mem_toList.mp hname)).1
    exact List.mem_append_right _ (List.mem_singleton.mpr (Option.mem_some_iff.mp hsaid).symm)
  have sim : Simulation ρ floor V.Related := Store.simulation_flattens ρ floor
  have hincludesFollow := includesFollow_renderInclude sim rfl hhost less hsites
  have hfloor : t.store.extent.Opened floor floor := ⟨Nat.le_refl floor, hflat.floor_lt⟩
  have hfollows := Follows.renderAll sim hhost hincludesFollow hfloor nodes
  have hstates : t.Follows V deep := ⟨hflat, hanswers, hothers, ⟨[], hincludes, rfl⟩⟩
  rcases hfollows t deep hstates (.refl _) with ⟨trouble, ⟨e, hcode, rfl⟩, herror⟩ | hagrees
  · exact .inl ⟨e, hcode, herror⟩
  · rcases hagrees.after.includes with ⟨since, hapart, hrun⟩
    refine .inr ⟨hagrees.outcome.eq.symm, ?_⟩
    rw [hapart, hrun]
    exact (congrArg (· ++ deep.includes) (List.append_nil since)).symm

theorem renderInclude_flat (hhost : setup.host.IsPure)
    (hgives : Gives setup.host inclusion s data s₁)
    (hpath : ViewPath.resolve? setup.source.viewsType inclusion.path site.view = some path)
    (hanswers : s₁.Answers setup.source answer) {nodes : List Node}
    (hnodes : answer path = .ok nodes) {left : Nat} (hleft : left ≤ setup.maxDepth)
    {t : RenderState} (hother : ρ.place floor = s₁.store.scopes.size)
    (hflat : t.store.Flattens ρ floor (s₁.store.child inclusion.scope data none).2)
    (hserved : t.Answers setup.source answer) (hincludes : t.includes = []) :
    IsCycle (renderInclude setup left site inclusion s) ∨
      Matches (renderInclude setup left site inclusion s)
        (renderAll setup.host (renderInclude setup setup.maxDepth (Site.top (some path))) floor
          nodes t) (path :: s₁.includes) := by
  rcases renderInclude_served hgives hpath hanswers left with
    hcycle | ⟨less, s₂, hless, hstore, hbefore, hothers, hrun, _⟩
  · exact .inl hcycle
  rw [hrun nodes hnodes, hstore, hbefore, ← hother]
  have hbegun : ({ s₂ with
      store := (s₁.store.child inclusion.scope data none).2
      includes := path :: s₁.includes } : RenderState).Answers setup.source answer :=
    hothers.of_cache rfl
  exact renderAll_flat hhost (Nat.le_trans (Nat.le_of_lt hless) hleft) hflat hserved hbegun
    hincludes nodes

theorem renderInclude_apart (hhost : setup.host.IsPure)
    (hgives : Gives setup.host inclusion s data s₁)
    (hpath : ViewPath.resolve? setup.source.viewsType inclusion.path site.view = some path)
    (hanswers : s₁.Answers setup.source answer) {nodes : List Node}
    (hnodes : answer path = .ok nodes) {left : Nat} (hleft : left ≤ setup.maxDepth)
    (hclosed : s.store.IsClosed) (hkeyed : s.store.IsKeyed)
    (hscope : inclusion.scope < s.store.scopes.size) (events : List Event) :
    IsCycle (renderInclude setup left site inclusion s) ∨
      Matches (renderInclude setup left site inclusion s)
        (renderApart setup path (s₁.store.merged inclusion.scope data) nodes
          ⟨s₁.store, s₁.cache, events, []⟩) (path :: s₁.includes) := by
  rcases hgives.within hhost setup.source hclosed hscope with ⟨hclosed₁, hdata⟩
  have hscope₁ := Nat.lt_of_lt_of_le hscope hgives.counts.frames.size_le
  exact renderInclude_flat hhost hgives hpath hanswers hnodes hleft rfl
    (Store.flattens_stand data hclosed₁ (hgives.isKeyed hkeyed) hscope₁ hdata)
    (hanswers.of_cache rfl) rfl

end Includes

end Rendering

end Stencil
