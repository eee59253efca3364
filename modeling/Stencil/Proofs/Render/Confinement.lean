import Stencil.Proofs.Render.Lengths
import Stencil.Proofs.View.Pattern
import Stencil.Render.Include

/-!
# What stops a render

An expression that is malformed, a helper that fails, a value without a text, a value
that a pattern does not suit, a path that leads nowhere: none of these stops a render.
What is left are includes that never end, views that cannot be had for a reason other
than that they are not there, and what the host does: failures that cannot be told or
caught, and lists that get longer and longer.
-/

namespace Stencil

/-! # Parts of values -/

/-- Whether a part can be taken of any value: a key has to be an identifier. -/
def Part.IsNamed : Part → Prop
  | whole => True
  | key name => isName name.toList = true
  | position _ => True

theorem Pattern.IsNamed.parts {pattern : Pattern} (h : pattern.IsNamed) :
    ∀ entry ∈ pattern.parts, entry.2.IsNamed := by
  intro entry hentry
  cases pattern with
  | name target =>
      cases List.mem_singleton.mp hentry
      trivial
  | object entries =>
      rcases List.mem_map.mp hentry with ⟨given, hgiven, rfl⟩
      exact (h given hgiven).1
  | array targets =>
      rcases List.mem_map.mp hentry with ⟨given, hgiven, rfl⟩
      trivial

theorem Value.position?_name {name : String} (h : isName name.toList = true) :
    (Value.str name).position? = .ok none := by
  have hsigns : (Text.ofString name).points.all (CodePoint.isChar Text.isDigitSign) = false := by
    cases hname : name.toList with
    | nil =>
        rw [hname] at h
        cases h
    | cons c rest =>
        rw [hname, isName, Bool.and_eq_true] at h
        simp [Text.ofString, Text.ofChars, hname, CodePoint.isChar,
          Grammar.isDigitSign_of_isNameStart h.1]
  simp only [Value.position?, hsigns, Bool.and_false]

theorem elementMember_ok {elements : List Value} {key : Value} {position : Option Int}
    (h : key.position? = .ok position) : ∃ found, elementMember elements key = .ok found := by
  unfold elementMember
  split
  · exact ⟨_, rfl⟩
  · rw [h]
    cases position with
    | none => exact ⟨_, rfl⟩
    | some n => exact ⟨_, rfl⟩

theorem Store.member_ok (σ : Store) (value : Value) {key : Value} {position : Option Int}
    (h : key.position? = .ok position) : ∃ found, σ.member value key = .ok found := by
  unfold Store.member
  split
  · split
    · exact ⟨_, rfl⟩
    · exact ⟨_, rfl⟩
  · exact elementMember_ok h
  · split
    · exact elementMember_ok h
    · exact ⟨_, rfl⟩
    · exact ⟨_, rfl⟩
    · exact ⟨_, rfl⟩

theorem Part.take_ok {part : Part} (h : part.IsNamed) (σ : Store) (value : Value) :
    ∃ found, part.take σ value = .ok found := by
  cases part with
  | whole => exact ⟨_, rfl⟩
  | key name => exact σ.member_ok value (Value.position?_name h)
  | position index =>
      unfold Part.take
      dsimp only
      split
      · exact σ.member_ok value rfl
      · exact ⟨_, rfl⟩

namespace Rendering

section Nodes

variable {kept : Option (Cache (List Node)) → Prop} {may : Trouble → Prop}

/-! # Nodes -/

theorem Keeps.bindPart (scope : Nat) (value : Value) (name : String) {part : Part}
    (h : part.IsNamed) :
    Keeps kept may (fun _ => True) (bindPart scope value name part) := by
  apply Keeps.steady
  intro s
  rcases part.take_ok h s.store value with ⟨found, hfound⟩
  exact ⟨(), { s with store := s.store.bind scope (.str name) found },
    by rw [Stencil.bindPart, hfound], rfl, trivial⟩

theorem Keeps.bindParts (scope : Nat) (value : Value) {parts : List (String × Part)}
    (h : ∀ entry ∈ parts, entry.2.IsNamed) :
    Keeps kept may (fun _ => True) (bindParts scope value parts) := by
  induction parts with
  | nil => exact .pure trivial
  | cons entry rest ih =>
      apply (Keeps.bindPart scope value entry.1 (h entry List.mem_cons_self)).bind
      intro _ _
      exact ih fun other hother => h other (List.mem_cons_of_mem _ hother)

theorem ends_renderRounds {body : Nat → Rendering Text}
    (hbody : ∀ inner, Keeps kept may (fun _ => True) (body inner))
    (hlasts : may .unending ∨ ∀ inner, Changes Store.NoLonger (body inner)) (scope left : Nat)
    (loop : Loop) {s : RenderState} (hs : kept s.cache)
    (hwithin : may .unending ∨ loop.Within s.store left) :
    Ends kept may (fun _ => True) (renderRounds body scope left loop s) := by
  induction left generalizing loop s with
  | zero =>
      cases hround : loop.next? s.store with
      | none =>
          rw [renderRounds_done hround]
          exact .ok hs trivial
      | some found =>
          rw [renderRounds_stuck hround]
          refine .error hs (hwithin.resolve_right fun hloop => ?_)
          rcases hloop.next hround with ⟨fewer, hfewer, -⟩
          cases hfewer
  | succ left ih =>
      cases hround : loop.next? s.store with
      | none =>
          rw [renderRounds_done hround]
          exact .ok hs trivial
      | some found =>
          rcases found with ⟨round, later⟩
          have hopened : Keeps kept may (fun _ => True) (openRound scope round) :=
            .onStore fun _ => trivial
          have halone : Keeps kept may (fun _ => True) (alone body scope round) :=
            hopened.bind fun inner _ => hbody inner
          have hfirst := halone s hs
          -- The list is no longer after the round than before it, so one round less is to come.
          have hlater : may .unending ∨
              later.Within (alone body scope round s).2.store left := by
            rcases hwithin with hmay | hloop
            · exact .inl hmay
            · refine hlasts.imp_right fun hlasts => ?_
              rcases hloop.next hround with ⟨fewer, hfewer, hlater⟩
              cases hfewer
              have hopen : Changes Store.NoLonger (openRound scope round) :=
                fun _ => Store.noLonger_of_shared rfl
              exact hlater.mono (hopen.bind Store.goesOn_noLonger hlasts s)
          rw [renderRounds_next hround, bind_def]
          generalize alone body scope round s = run at hfirst hlater
          rcases run with ⟨trouble | first, after⟩
          · exact .error hfirst.cache (hfirst.trouble trouble rfl)
          · have hothers := ih later hfirst.cache hlater
            dsimp only
            rw [bind_def]
            generalize renderRounds body scope left later after = run at hothers
            rcases run with ⟨trouble | others, last⟩
            · exact .error hothers.cache (hothers.trouble trouble rfl)
            · exact .ok hothers.cache trivial

theorem Keeps.renderLoop {body : Nat → Rendering Text}
    (hbody : ∀ inner, Keeps kept may (fun _ => True) (body inner))
    (hlasts : may .unending ∨ ∀ inner, Changes Store.NoLonger (body inner)) (scope more : Nat)
    (item index : String) (collection : Value) :
    Keeps kept may (fun _ => True) (do
      let loop ← Rendering.onStore fun σ => (Loop.begin σ item index collection, σ)
      renderRounds body scope (loop.count + more) loop) :=
  fun s hs => ends_renderRounds hbody hlasts scope _ _ hs
    (.inr (Loop.within_begin s.store item index collection more))

variable {host : Host} {enter : Inclusion → Rendering Text}

def KeepsEntering (kept : Option (Cache (List Node)) → Prop) (may : Trouble → Prop)
    (enter : Inclusion → Rendering Text) (nodes : List Node) : Prop :=
  ∀ line path data, .inclusion line path data ∈ nodes → ∀ scope,
    Keeps kept may (fun _ => True) (enter ⟨line, path, data, scope⟩)

theorem KeepsEntering.of_subset {nodes others : List Node}
    (h : KeepsEntering kept may enter nodes) (hsub : others ⊆ nodes) :
    KeepsEntering kept may enter others :=
  fun line path data hmem => h line path data (hsub hmem)

def LastsEntering (may : Trouble → Prop) (host : Host) (enter : Inclusion → Rendering Text) :
    Prop :=
  may .unending ∨ ∀ nodes inner, Changes Store.NoLonger (Stencil.renderAll host enter inner nodes)

mutual

theorem Keeps.renderNode (hmay : ∀ again, host.Escapes again → may again.trouble)
    (hlasts : LastsEntering may host enter) :
    (node : Node) → KeepsEntering kept may enter node.walk →
      (∀ inner ∈ node.walk, inner.IsRead) → (scope : Nat) →
        Keeps kept may (fun _ => True) (renderNode host enter scope node)
  | .text _ _, _, _, _ => by
      rw [Stencil.renderNode]
      exact .pure trivial
  | .interpolation _ source, _, _, scope => by
      rw [Stencil.renderNode]
      exact (Keeps.textOf hmay scope source).bind fun _ _ => .pure trivial
  | .shorthand _ path, _, _, scope => by
      rw [Stencil.renderNode]
      exact (Keeps.textOf hmay scope path).bind fun _ _ => .pure trivial
  | .declaration line pattern source, _, h, scope => by
      have hread : (Directive.declaration pattern source).IsRead :=
        h (.declaration line pattern source) (Node.mem_walk_self _)
      rw [Stencil.renderNode]
      apply (Keeps.valueOf hmay scope source).bind
      intro value _
      exact (Keeps.bindParts scope value hread.isNamed.parts).bind fun _ _ => .pure trivial
  | .conditional line branches otherwise, henter, h, scope => by
      rw [Stencil.renderNode.eq_def]
      dsimp only
      have hsub : Node.walkBranches branches ⊆ (Node.conditional line branches otherwise).walk := by
        intro inner hinner
        exact Node.mem_walk_conditional.mpr (.inr (.inl (Node.mem_walkBranches.mp hinner)))
      apply (Keeps.renderBranches hmay hlasts branches (henter.of_subset hsub)
        (fun inner hinner => h inner (hsub hinner)) scope).bind
      intro found _
      cases found with
      | some text => exact .pure trivial
      | none =>
          match otherwise, henter, h with
          | none, _, _ => exact .pure trivial
          | some body, henter, h =>
              have hsub : Node.walkAll body ⊆
                  (Node.conditional line branches (some body)).walk := by
                intro inner hinner
                exact Node.mem_walk_conditional.mpr (.inr (.inr ⟨body, rfl, hinner⟩))
              exact Keeps.renderAll hmay hlasts body (henter.of_subset hsub)
                (fun inner hinner => h inner (hsub hinner)) scope
  | .loop line item index source body, henter, h, scope => by
      rw [Stencil.renderNode]
      have hsub : Node.walkAll body ⊆ (Node.loop line item index source body).walk := by
        intro inner hinner
        exact Node.mem_walk_loop.mpr (.inr hinner)
      apply (Keeps.valueOf hmay scope source).bind
      intro collection _
      exact .renderLoop (fun inner => Keeps.renderAll hmay hlasts body (henter.of_subset hsub)
        (fun other hother => h other (hsub hother)) inner)
        (hlasts.imp_right fun hlasts inner => hlasts body inner) scope _ item index collection
  | .inclusion line path data, henter, _, scope => by
      rw [Stencil.renderNode]
      exact henter line path data (Node.mem_walk_self _) scope

theorem Keeps.renderAll (hmay : ∀ again, host.Escapes again → may again.trouble)
    (hlasts : LastsEntering may host enter) :
    (nodes : List Node) → KeepsEntering kept may enter (Node.walkAll nodes) →
      Node.AllRead nodes → (scope : Nat) →
        Keeps kept may (fun _ => True) (renderAll host enter scope nodes)
  | [], _, _, _ => by
      rw [Stencil.renderAll]
      exact .pure trivial
  | node :: rest, henter, h, scope => by
      rw [Stencil.renderAll]
      have hfirst : node.walk ⊆ Node.walkAll (node :: rest) := fun inner => List.mem_append_left _
      have hothers : Node.walkAll rest ⊆ Node.walkAll (node :: rest) := fun inner =>
        List.mem_append_right _
      apply (Keeps.renderNode hmay hlasts node (henter.of_subset hfirst)
        (fun inner hinner => h inner (hfirst hinner)) scope).bind
      intro first _
      exact (Keeps.renderAll hmay hlasts rest (henter.of_subset hothers)
        (fun inner hinner => h inner (hothers hinner)) scope).bind fun _ _ => .pure trivial

theorem Keeps.renderBranches (hmay : ∀ again, host.Escapes again → may again.trouble)
    (hlasts : LastsEntering may host enter) :
    (branches : List (Branch Node)) → KeepsEntering kept may enter (Node.walkBranches branches) →
      (∀ inner ∈ Node.walkBranches branches, inner.IsRead) → (scope : Nat) →
        Keeps kept may (fun _ => True) (renderBranches host enter scope branches)
  | [], _, _, _ => by
      rw [Stencil.renderBranches]
      exact .pure trivial
  | branch :: rest, henter, h, scope => by
      rw [Stencil.renderBranches]
      have hbody : Node.walkAll branch.body ⊆ Node.walkBranches (branch :: rest) := fun inner =>
        List.mem_append_left _
      have hothers : Node.walkBranches rest ⊆ Node.walkBranches (branch :: rest) := fun inner =>
        List.mem_append_right _
      apply (Keeps.valueOf hmay scope branch.condition).bind
      intro condition _
      split
      · exact (Keeps.renderAll hmay hlasts branch.body (henter.of_subset hbody)
          (fun inner hinner => h inner (hbody hinner)) scope).bind fun _ _ => .pure trivial
      · exact Keeps.renderBranches hmay hlasts rest (henter.of_subset hothers)
          (fun inner hinner => h inner (hothers hinner)) scope

end

end Nodes

/-! # Includes -/

def Recovers (trouble : Trouble) : Prop :=
  ∃ e : ViewError, trouble = .view e ∧ recoverableCodes.contains e.code = true

section Includes

variable {kept : Option (Cache (List Node)) → Prop} {may : Trouble → Prop}

theorem Keeps.noteMissing (site : Site) (inclusion : Inclusion) (e : ViewError) :
    Keeps kept may (fun _ => True) (noteMissing site inclusion e) :=
  .note _

theorem Keeps.includeData {host : Host}
    (hmay : ∀ again, host.Escapes again → may again.trouble) (inclusion : Inclusion) :
    Keeps kept may (fun _ => True) (includeData host inclusion) := by
  unfold Stencil.includeData
  split
  · exact .pure trivial
  next source hsource =>
      apply (Keeps.valueOf hmay inclusion.scope source).bind
      intro value _
      have hstate : Keeps kept may (fun _ => True) (get : Rendering RenderState) :=
        .read fun _ => trivial
      apply hstate.bind
      intro s _
      split
      · exact .pure trivial
      · exact (Keeps.note _).bind fun _ _ => .pure trivial

theorem Keeps.includeTarget {setup : RenderSetup}
    (hmay : ∀ again, setup.host.Escapes again → may again.trouble) (site : Site)
    (inclusion : Inclusion) :
    Keeps kept may
      (fun target => ∀ found ∈ target,
        ViewPath.resolve? setup.source.viewsType inclusion.path site.view = some found.1)
      (includeTarget setup site inclusion) := by
  apply (Keeps.includeData hmay inclusion).bind
  intro data _
  unfold ViewPath.resolve
  cases hpath : ViewPath.resolve? setup.source.viewsType inclusion.path site.view with
  | some path =>
      apply Keeps.pure
      rintro _ ⟨⟩
      exact rfl
  | none =>
      apply (Keeps.noteMissing site inclusion _).bind
      intro _ _
      apply Keeps.pure
      rintro _ ⟨⟩

theorem Keeps.rejectCycle {site : Site} {inclusion : Inclusion} {path : Text}
    (hcycle : may (.view (cycleError site inclusion path))) :
    Keeps kept may (fun _ => True) (rejectCycle site inclusion path : Rendering Text) := by
  apply (Keeps.note _).bind
  intro _ _
  exact .throw hcycle

variable {setup : RenderSetup}

theorem Keeps.includeNodes {gives : List Node → Prop} (site : Site) (inclusion : Inclusion)
    {path : Text} (hfetch : Keeps kept (fun trouble => may trouble ∨ Recovers trouble) gives
      (fetch setup.source path)) :
    Keeps kept may (fun found => ∀ nodes ∈ found, gives nodes)
      (includeNodes setup site inclusion path) := by
  apply (Keeps.note _).bind
  intro _ _
  apply hfetch.attempt.bind
  intro result hresult
  rcases hresult with ⟨hnodes, htrouble⟩
  split
  next nodes =>
      apply Keeps.pure
      intro found hfound
      cases hfound
      exact hnodes nodes rfl
  next e =>
      split
      · apply (Keeps.noteMissing site inclusion e).bind
        intro _ _
        apply Keeps.pure
        intro found hfound
        cases hfound
      next hcode =>
          rcases htrouble _ rfl with hmay | hrecovers
          · exact .throw hmay
          · rcases hrecovers with ⟨other, hother, hrecovered⟩
            cases hother
            exact absurd hrecovered hcode
  next trouble hview =>
      rcases htrouble _ rfl with hmay | hrecovers
      · exact .throw hmay
      · rcases hrecovers with ⟨e, he, _⟩
        exact absurd he (hview e)

variable (hmay : ∀ again, setup.host.Escapes again → may again.trouble)
  (hlasts : setup.host.LengthensNothing ∨ may .unending)
  (hcycle : ∀ e : ViewError, e.code = ErrorForm.includeCycle.code → may (.view e))
  (hfetch : ∀ path, Keeps kept (fun trouble => may trouble ∨ Recovers trouble) Node.AllRead
    (fetch setup.source path))

include hlasts in
theorem lastsEntering_renderInclude (left : Nat) (site : Site) :
    LastsEntering may setup.host (Stencil.renderInclude setup left site) :=
  hlasts.symm.imp_right fun hhost => Changes.renderAll (allows_noLonger hhost)
    (Changes.renderInclude (allows_noLonger hhost) left site)

include hmay hlasts hcycle hfetch

theorem Keeps.renderInclude (left : Nat) :
    ∀ (site : Site) (inclusion : Inclusion),
      Keeps kept may (fun _ => True) (renderInclude setup left site inclusion) := by
  induction left with
  | zero =>
      intro site inclusion
      apply (Keeps.includeTarget hmay site inclusion).bind
      intro target _
      cases target with
      | none => exact .pure trivial
      | some found => exact .rejectCycle (hcycle _ rfl)
  | succ left ih =>
      intro site inclusion
      apply (Keeps.includeTarget hmay site inclusion).bind
      intro target _
      cases target with
      | none => exact .pure trivial
      | some found =>
          rcases found with ⟨path, data⟩
          dsimp only
          split
          · exact .rejectCycle (hcycle _ rfl)
          · apply (Keeps.includeNodes site inclusion (hfetch path)).bind
            intro nodes hnodes
            cases nodes with
            | none => exact .pure trivial
            | some nodes =>
                apply (Keeps.addInclude path).bind
                intro _ _
                have hscope : Keeps kept may (fun _ => True) (Rendering.onStore fun σ =>
                    σ.child inclusion.scope data none) := .onStore fun _ => trivial
                apply hscope.bind
                intro scope _
                exact .renderAll hmay (lastsEntering_renderInclude hlasts left (site.enter path))
                  nodes (fun _ _ _ _ _ => ih (site.enter path) _) (hnodes nodes rfl) scope

theorem Keeps.renderView (view : Option Text) {nodes : List Node} (h : Node.AllRead nodes) :
    Keeps kept may (fun _ => True) (renderView setup view nodes) :=
  .renderAll hmay (lastsEntering_renderInclude hlasts _ _) nodes
    (fun _ _ _ _ _ => Keeps.renderInclude hmay hlasts hcycle hfetch _ _ _) h 0

end Includes

end Rendering
end Stencil
