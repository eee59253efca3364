import Mathlib
import Stencil.Proofs.Engine.Running
import Stencil.Proofs.Render.Finishing
import Stencil.Proofs.Render.Merging
import Stencil.Proofs.Render.Environs
import Stencil.Proofs.Render.Standing

/-!
# Includes as renders

Wherever an include stands in a render, it gives what the engine gives when it renders the text of
the view by itself, over everything that is seen there with the data of the include merged in.

The bindings that are merged may lead to scopes of the render under way. An engine that renders the
text by itself begins with a fresh store. So the include is compared with a render that begins
beside those scopes, and also with one in a fresh store, if nothing leads to a scope.
-/

namespace Stencil

/-! # The text of a view -/

/-- Whether a view has some text: what is cached was parsed from it, or else it will be read. -/
def ViewSource.Has (source : ViewSource) (cache : Option (Cache (List Node))) (path : Text)
    (text : String) : Prop :=
  match cache.bind fun kept => kept.find? path with
  | some nodes => View.parse text = .ok nodes
  | none => source.read path = .ok text

theorem ViewSource.Has.fetch {source : ViewSource} {path : Text} {text : String} {s : RenderState}
    (h : source.Has s.cache path text) :
    (Rendering.fetch source path s).1 =
      match View.parse text with
      | .ok nodes => .ok nodes
      | .error e => .error (.view (View.structureError e (some path))) := by
  unfold Has at h
  unfold Rendering.fetch
  cases hcache : s.cache with
  | none =>
      rw [hcache] at h
      exact source.parsed_of_read h
  | some cache =>
      rw [hcache] at h
      dsimp only [Option.bind_some] at h
      show (cache.get path fun _ => source.parsed path).1 = _
      rw [Cache.get_fst]
      cases hfound : cache.find? path with
      | none =>
          rw [hfound] at h
          exact source.parsed_of_read h
      | some nodes =>
          rw [hfound] at h
          rw [show View.parse text = .ok nodes from h]
          rfl

/-! # Fresh stores -/

def Renaming.shift (n : Nat) : Renaming where
  place i := n + i
  mark i := i
  place_injective _ _ h := Nat.add_left_cancel h
  mark_injective _ _ h := h
  mark_zero := rfl

namespace Store

def extentApart (σ : Store) : Extent :=
  { σ.extent with scopes := 0 }

/-- Whether neither some entries nor the helpers and containers lead to a scope. -/
structure Scopeless (σ : Store) (entries : Entries Value) : Prop where
  entries : Entries.Renamed .identity σ.extentApart entries entries
  helpers : ∀ entry ∈ σ.helpers, Value.Renamed .identity σ.extentApart entry.2 entry.2
  shared : ∀ c ∈ σ.shared.toList, c.Renamed .identity σ.extentApart c

theorem isKeyed_restart (σ : Store) {entries : Entries Value} (hentries : entries.Distinct)
    (helpers : Helpers) : (σ.restart entries helpers).IsKeyed where
  data := hentries
  own place := by
    cases place with
    | zero => exact List.Pairwise.nil
    | succ place => exact List.Pairwise.nil

theorem bindings_restart (σ : Store) {entries : Entries Value} (hentries : entries.Distinct)
    (helpers : Helpers) : (σ.restart entries helpers).bindings 0 = entries :=
  Entries.ofPairs_of_distinct hentries

theorem flattens_restart {σ : Store} {place : Nat} {data : Entries Value} (hclosed : σ.IsClosed)
    (hkeyed : σ.IsKeyed) (hplace : place < σ.scopes.size)
    (hscopeless : σ.Scopeless (σ.merged place data)) :
    Flattens (.shift σ.scopes.size) 0 (σ.restart (σ.merged place data) σ.helpers)
      (σ.child place data none).2 := by
  have hagrees : Renaming.identity.Agrees σ.extentApart (.shift σ.scopes.size) :=
    ⟨fun _ hplace => absurd hplace (Nat.not_lt_zero _), fun _ _ => rfl⟩
  have hwithin : σ.extentApart.Within (σ.restart (σ.merged place data) σ.helpers).extent :=
    ⟨Nat.zero_le _, Nat.le_refl _, Nat.le_refl _⟩
  have hdistinct : (σ.merged place data).Distinct := distinct_merged data
  refine flattens_child hclosed hplace ?_ ?_ rfl (Nat.zero_le _) ?_ (fun _ => rfl) rfl
    List.Pairwise.nil ?_ fun p hp => absurd hp (Nat.not_lt_zero p)
  · exact List.forall₂_same.mpr fun entry hentry =>
      ⟨rfl, (hagrees.value (hscopeless.helpers entry hentry)).mono hwithin⟩
  · exact List.forall₂_same.mpr fun c hc =>
      (hagrees.container (hscopeless.shared c hc)).mono hwithin
  · intro i
    show σ.scopes.size + (0 + i) = σ.scopes.size + i
    rw [Nat.zero_add]
  · exact shows_child data hclosed hplace hkeyed (bound?_restart σ _ _)
      (bindings_restart σ hdistinct _) ((hagrees.entries hscopeless.entries).mono hwithin)

end Store

/-! # Renders by themselves -/

/--
Renders a text that stands for a view over some bindings, as `renderText` does, but beside the
scopes that are there instead of in a fresh store.
-/
def renderTextBeside (setup : RenderSetup) (text : String) (path : Text)
    (bindings : Entries Value) : Rendering Rendered :=
  match View.parse text with
  | .error e => throw (.view (View.structureError e (some path)))
  | .ok nodes => do
      let output ← Rendering.renderApart setup path bindings nodes
      return ⟨output, Node.anyDirective nodes, (← get).includes.reverse⟩

namespace Engine

/-- What `renderSource` gives if the scopes that the store of the engine has stay where they are. -/
def renderBeside (engine : Engine) (host : Host) (text : String) (path : Text)
    (bindings : Entries Value) : Except Escape Rendered × Engine :=
  engine.run (some path) (renderTextBeside (engine.setup host) text path bindings)

/--
Whether an include ends as a render of its view does, and has included its view and then what that
render includes.
-/
inductive Repeats (path : Text) (before : List Text) (run : Except Trouble Text × RenderState) :
    Except Escape Rendered → Prop where
  | ok {rendered : Rendered} :
      run.1 = .ok rendered.output →
      run.2.includes.reverse = before.reverse ++ [path] ++ rendered.includes →
      Repeats path before run (.ok rendered)
  | error {trouble : Trouble} :
      run.1 = .error trouble →
      Repeats path before run (.error (trouble.escape (some (.text path))))

theorem repeats_of_matches {run apart : Except Trouble Text × RenderState} {path : Text}
    {before : List Text} (hadDirectives : Bool) :
    Rendering.Matches run apart (path :: before) →
      Repeats path before run
        (match apart with
        | (.ok output, after) => .ok ⟨output, hadDirectives, after.includes.reverse⟩
        | (.error trouble, _) => .error (trouble.escape (some (.text path)))) := by
  rintro ⟨hresult, hincludes⟩
  rcases apart with ⟨_ | output, after⟩
  · exact .error hresult
  · refine .ok hresult ?_
    rw [hincludes, List.reverse_append, List.reverse_cons]

section Texts

variable {engine : Engine} {host : Host} {text : String} {path : Text} {bindings : Entries Value}

theorem renderBeside_fst {nodes : List Node} (hparse : View.parse text = .ok nodes) :
    (engine.renderBeside host text path bindings).1 =
      match Rendering.renderApart (engine.setup host) path bindings nodes
        ⟨engine.store, engine.cache, [.renderStarted], []⟩ with
      | (.ok output, after) => .ok ⟨output, Node.anyDirective nodes, after.includes.reverse⟩
      | (.error trouble, _) => .error (trouble.escape (some (.text path))) := by
  have hbegin : ({ engine.begin with events := [.renderStarted] } : RenderState) =
      ⟨engine.store, engine.cache, [.renderStarted], []⟩ := rfl
  rw [renderBeside, run_fst, renderTextBeside, hparse, hbegin]
  dsimp only
  rw [bind_def]
  generalize Rendering.renderApart (engine.setup host) path bindings nodes
    ⟨engine.store, engine.cache, [.renderStarted], []⟩ = apart
  rcases apart with ⟨_ | output, after⟩
  · rfl
  · rfl

theorem repeats_malformed {e : StructureError} (hparse : View.parse text = .error e)
    {run : Except Trouble Text × RenderState}
    (hrun : run.1 = .error (.view (View.structureError e (some path)))) (before : List Text) :
    Repeats path before run (engine.renderBeside host text path bindings).1 ∧
      Repeats path before run (engine.renderSource host text (some path) (.map bindings)).1 := by
  constructor
  · rw [renderBeside, run_fst, renderTextBeside, hparse]
    exact .error hrun
  · rw [renderSource, run_fst, renderText, hparse]
    exact .error hrun

end Texts

/-! # Includes on their way -/

section Includes

variable {engine : Engine} {host : Host}

theorem stands_start {entries : Entries Value} (hentries : entries.Distinct) {s : RenderState}
    (hstore : s.store = engine.store.restart entries engine.helpers) (hclosed : s.store.IsClosed)
    (view : Option Text) (nodes : List Node) :
    (Course.start view nodes s).Stands
      (Rendering.pairingOf (Store.Stands s.store) engine.source s s) where
  state := by
    refine ⟨⟨hclosed.embeds, ?_, hclosed.mark_pos, rfl, rfl⟩, fun _ => rfl, fun _ => rfl,
      [], rfl, rfl⟩
    show s.store.IsKeyed
    rw [hstore]
    exact engine.store.isKeyed_restart hentries engine.helpers
  tasks := by
    refine List.forall_mem_singleton.mpr ?_
    show 0 < s.store.scopes.size
    rw [hstore]
    exact Nat.one_pos

section Run

variable (hhost : host.IsPure) {site : Site} {inclusion : Inclusion} {s s₁ : RenderState}
  {data : Entries Value} {path : Text} {answer : ViewNodes} {left : Nat}
  (hgives : Rendering.Gives host inclusion s data s₁)
  (hpath : ViewPath.resolve? engine.source.viewsType inclusion.path site.view = some path)
  (hanswers : s₁.Answers engine.source answer) (hleft : left ≤ (engine.setup host).maxDepth)
  (hclosed : s.store.IsClosed) (hkeyed : s.store.IsKeyed)
  (hscope : inclusion.scope < s.store.scopes.size) {text : String}

section Parsed

variable {nodes : List Node} (hparse : View.parse text = .ok nodes)
  (hnodes : answer path = .ok nodes)

include hhost hgives hpath hanswers hleft hclosed hkeyed hscope hparse hnodes

theorem repeats_beside
    (hcycle : ¬Rendering.IsCycle (renderInclude (engine.setup host) left site inclusion s)) :
    Repeats path s₁.includes (renderInclude (engine.setup host) left site inclusion s)
      ({ engine with store := s₁.store, cache := s₁.cache }.renderBeside host text path
        (s₁.store.merged inclusion.scope data)).1 := by
  have hmatches := (Rendering.renderInclude_apart hhost hgives hpath hanswers hnodes hleft hclosed
    hkeyed hscope [.renderStarted]).resolve_left hcycle
  rw [renderBeside_fst hparse]
  exact repeats_of_matches _ hmatches

theorem repeats_source (hhelpers : s₁.store.helpers = engine.helpers)
    (hscopeless : s₁.store.Scopeless (s₁.store.merged inclusion.scope data))
    (hcycle : ¬Rendering.IsCycle (renderInclude (engine.setup host) left site inclusion s)) :
    Repeats path s₁.includes (renderInclude (engine.setup host) left site inclusion s)
      ({ engine with store := s₁.store, cache := s₁.cache }.renderSource host text (some path)
        (.map (s₁.store.merged inclusion.scope data))).1 := by
  have hclosed₁ := (hgives.within hhost engine.source hclosed hscope).1
  have hscope₁ := Nat.lt_of_lt_of_le hscope hgives.counts.frames.size_le
  have hflat := Store.flattens_restart hclosed₁ (hgives.isKeyed hkeyed) hscope₁ hscopeless
  rw [hhelpers] at hflat
  let t : RenderState :=
    ⟨s₁.store.restart (s₁.store.merged inclusion.scope data) engine.helpers, s₁.cache,
      [.renderStarted], []⟩
  have hserved : t.Answers engine.source answer := hanswers.of_cache rfl
  have hmatches := (Rendering.renderInclude_flat hhost hgives hpath hanswers hnodes hleft
    rfl hflat hserved rfl).resolve_left hcycle
  rw [renderSource_fst hparse rfl]
  exact repeats_of_matches _ hmatches

end Parsed

include hhost hgives hpath hanswers hleft hclosed hkeyed hscope in
theorem repeats_include
    (hanswer : answer path =
      match View.parse text with
      | .ok nodes => .ok nodes
      | .error e => .error (.view (View.structureError e (some path))))
    (hhelpers : s₁.store.helpers = engine.helpers)
    (hcycle : ¬Rendering.IsCycle (renderInclude (engine.setup host) left site inclusion s)) :
    Repeats path s₁.includes (renderInclude (engine.setup host) left site inclusion s)
        ({ engine with store := s₁.store, cache := s₁.cache }.renderBeside host text path
          (s₁.store.merged inclusion.scope data)).1 ∧
      (s₁.store.Scopeless (s₁.store.merged inclusion.scope data) →
        Repeats path s₁.includes (renderInclude (engine.setup host) left site inclusion s)
          ({ engine with store := s₁.store, cache := s₁.cache }.renderSource host text (some path)
            (.map (s₁.store.merged inclusion.scope data))).1) := by
  cases hparse : View.parse text with
  | ok nodes =>
      rw [hparse] at hanswer
      exact ⟨repeats_beside hhost hgives hpath hanswers hleft hclosed hkeyed hscope hparse hanswer
          hcycle,
        fun hscopeless => repeats_source hhost hgives hpath hanswers hleft hclosed hkeyed hscope
          hparse hanswer hhelpers hscopeless hcycle⟩
  | error e =>
      rw [hparse] at hanswer
      have hfatal : (View.structureError e (some path)).code ∉ recoverableCodes := by
        show "PARSE_STRUCTURE" ∉ recoverableCodes
        decide
      rcases @Rendering.renderInclude_served (engine.setup host) _ _ _ _ _ _ _ hgives hpath
        hanswers left with hloop | ⟨_, s₂, _, _, _, _, _, hfails⟩
      · exact absurd hloop hcycle
      · rw [hfails _ hanswer hfatal]
        have hboth := @repeats_malformed { engine with store := s₁.store, cache := s₁.cache } host
          text path (s₁.store.merged inclusion.scope data) e hparse (_, s₂) rfl s₁.includes
        exact ⟨hboth.1, fun _ => hboth.2⟩

end Run

/--
An include renders its view over the merged data. Wherever a render has come to, if the include that
comes next leads to a view and does not go round in a circle, it ends as a render of that view by
itself ends, over what is seen there with the data of the include merged in: with the same text, and
with the view and all that it includes added to the includes. (The data itself cannot be had if a
function of the host fails with what cannot be told or caught.) This render by itself takes place
beside the scopes of the one under way, or in a fresh store if nothing leads to them.
-/
theorem include_renders_merged (hhost : host.IsPure) {entries : Entries Value}
    (hentries : entries.Distinct) {s₀ : RenderState}
    (hstore : s₀.store = engine.store.restart entries engine.helpers)
    (hclosed : s₀.store.IsClosed) {top : Option Text} {nodes : List Node} {c : Course}
    (hc : Course.Leads (engine.setup host) (Course.start top nodes s₀) c)
    (htrouble : c.trouble = none) {view : Option Text} {inclusion : Inclusion}
    {others : List Node} {rest : List Task}
    (htasks : c.tasks = .nodes view inclusion.scope
      (.inclusion inclusion.line inclusion.path inclusion.data :: others) :: rest)
    {path : Text}
    (hpath : ViewPath.resolve? engine.source.viewsType inclusion.path view = some path)
    {text : String} (htext : engine.source.Has s₀.cache path text) :
    let site : Site := ⟨view, c.stack, c.depth⟩
    let run := renderInclude (engine.setup host) ((engine.setup host).maxDepth - c.depth) site
      inclusion c.state
    Course.Comes (engine.setup host) site c (.nodes view inclusion.scope others :: rest) c.output
        run ∧
      ((∃ again after, host.Escapes again ∧
        includeData host inclusion c.state = (.error again.trouble, after) ∧
        run.1 = .error again.trouble) ∨
      ∃ data s₁, Rendering.Gives host inclusion c.state data s₁ ∧
        (¬Rendering.IsCycle run →
          let now : Engine := { engine with store := s₁.store, cache := s₁.cache }
          let merged := c.state.store.merged inclusion.scope data
          Repeats path c.state.includes run (now.renderBeside host text path merged).1 ∧
            (s₁.store.Scopeless merged →
              Repeats path c.state.includes run
                (now.renderSource host text (some path) (.map merged)).1))) := by
  intro site run
  have horder := (Course.inOrder_start (engine.setup host) top nodes s₀).leads hc
  refine ⟨(horder.comesIfFollowed htrouble htasks).resolve_left fun hgrown => ?_, ?_⟩
  · exact hgrown.2.1 hhost.changesNothing.lengthensNothing
  -- What the render has kept since it began.
  have hstands := (stands_start hentries hstore hclosed top nodes).leads (fun _ => id)
    (Store.simulation_stands s₀.store 0) rfl hhost hc
  have hkept := hstands.state.store
  have hclosed' := hkept.isClosed
  have htask : Task.Within c.state.store.extent (.nodes view inclusion.scope
      (.inclusion inclusion.line inclusion.path inclusion.data :: others)) :=
    hstands.tasks _ (htasks ▸ List.mem_cons_self)
  have hscope : inclusion.scope < c.state.store.scopes.size := htask
  rcases Rendering.gives_cases hhost.changesNothing inclusion c.state with
    ⟨data, s₁, hgives⟩ | ⟨again, after, hagain, hdata⟩
  case inr =>
    refine .inl ⟨again, after, hagain, hdata, ?_⟩
    show (renderInclude _ _ _ _ _).1 = _
    rw [renderInclude_eq_bind, bind_def]
    rw [show includeData (engine.setup host).host inclusion c.state = _ from hdata]
  refine .inr ⟨data, s₁, hgives, fun hcycle => ?_⟩
  have hanswers : s₁.Answers engine.source (Rendering.answersOf engine.source s₀) :=
    hstands.state.answers.of_cache hgives.cache
  have hframes := hgives.counts.frames
  have hmerged : c.state.store.merged inclusion.scope data =
      s₁.store.merged inclusion.scope data := by
    rw [Store.merged, Store.merged, hframes.bindings_eq (hclosed'.embeds.path_lt hscope)]
  have hhelpers : s₁.store.helpers = engine.helpers := by
    rw [hframes.helpers, hkept.helpers, hstore]
    rfl
  rw [← hgives.includes, hmerged]
  exact @repeats_include engine host hhost site inclusion c.state s₁ data path _ _ hgives hpath
    hanswers (Nat.sub_le _ _) hclosed' hkept.keyed hscope text htext.fetch hhelpers hcycle

end Includes

/-! # A card with a title of its own -/

def cardEntries : Entries Value :=
  [(.str "title", .str "Mr"), (.str "name", .str "N")]

def cardEngine : Engine where
  settings := .standard
  viewsType := "html"
  shelf := .memory [("card.html", "@{title} @{name}")]
  files := ⟨[], []⟩
  cache := none
  helpers := []
  store := .ofData cardEntries []
  journal := []

def cardInclusion : Inclusion where
  line := 1
  path := "card"
  data := some "\x7b \"title\": \"Dr\" \x7d"
  scope := 0

/-- The title that the include gives goes before that of the data, and comes where it was. -/
theorem include_renders_merged_card :
    let merged : Entries Value := [(.str "title", .str "Dr"), (.str "name", .str "N")]
    let run := renderInclude (cardEngine.setup .identity) 16 (.top none) cardInclusion
      cardEngine.begin
    ∃ rendered, (cardEngine.renderSource .identity "@{title} @{name}" (some "card.html")
        (.map merged)).1 = .ok rendered ∧
      rendered.output = "Dr N" ∧ run.1 = .ok rendered.output ∧
      run.2.includes.reverse = [Text.ofString "card.html"] ++ rendered.includes := by
  intro merged run
  have hclosed : cardEngine.begin.store.IsClosed := by
    apply Store.isClosed_of_root rfl Nat.one_pos
    · exact .cons ⟨Key.renamed_str _ _ _, .constant rfl⟩
        (.cons ⟨Key.renamed_str _ _ _, .constant rfl⟩ .nil)
    · exact fun _ hentry => (List.not_mem_nil hentry).elim
    · exact fun _ hcontainer => (List.not_mem_nil hcontainer).elim
  have hentries : cardEntries.Distinct := by
    unfold Entries.Distinct cardEntries
    decide
  have htext : cardEngine.source.Has none "card.html" "@{title} @{name}" := rfl
  have hcard := (@include_renders_merged cardEngine .identity Host.identity_isPure cardEntries
    hentries cardEngine.begin rfl hclosed none [.inclusion 1 "card" cardInclusion.data] _ .refl rfl
    none cardInclusion [] [] rfl "card.html" (by decide) "@{title} @{name}" htext).2
  have hdepth : (cardEngine.setup .identity).maxDepth - 0 = 16 := by
    cbv
  have hsite : (⟨none, (Text.said none).toList, 0⟩ : Site) = .top none := rfl
  have hscope : cardInclusion.scope = 0 := rfl
  simp only [Course.start, hdepth, hsite, hscope] at hcard
  rcases hcard with ⟨again, _, hagain, _⟩ | ⟨data, s₁, hgives, hrun⟩
  · exact absurd hagain (Host.identity_tells.not_escapes again)
  have hdata : includeData .identity cardInclusion cardEngine.begin =
      (.ok [(.str "title", .str "Dr")], cardEngine.begin) := by
    cbv
  cases hgives.run.symm.trans hdata
  have hmerged : cardEngine.begin.store.merged 0 [(.str "title", .str "Dr")] = merged := by
    cbv
  rw [hmerged] at hrun
  have houtput : run.1.toOption = some "Dr N" := by
    decide +kernel
  have hcycle : ¬Rendering.IsCycle run := by
    rintro ⟨e, _, herror⟩
    rw [herror] at houtput
    cases houtput
  have hscopeless : cardEngine.begin.store.Scopeless merged := by
    refine ⟨?_, ?_, ?_⟩
    · exact .cons ⟨Key.renamed_str _ _ _, .constant rfl⟩
        (.cons ⟨Key.renamed_str _ _ _, .constant rfl⟩ .nil)
    · exact fun _ hentry => (List.not_mem_nil hentry).elim
    · exact fun _ hcontainer => (List.not_mem_nil hcontainer).elim
  have hrepeats : Repeats "card.html" [] run (cardEngine.renderSource .identity
      "@{title} @{name}" (some "card.html") (.map merged)).1 := (hrun hcycle).2 hscopeless
  generalize (cardEngine.renderSource .identity "@{title} @{name}" (some "card.html")
    (.map merged)).1 = result at hrepeats ⊢
  cases hrepeats with
  | ok hresult hincludes =>
      rw [hresult] at houtput
      exact ⟨_, rfl, Option.some.inj houtput, hresult, hincludes⟩
  | error herror =>
      rw [herror] at houtput
      cases houtput

end Engine

end Stencil
