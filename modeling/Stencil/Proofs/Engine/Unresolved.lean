import Mathlib
import Stencil.Proofs.Engine.Verbatim
import Stencil.Proofs.Render.Effects

/-!
# Names that mean nothing

A dotted name behind an at sign stays as it was written if it has no text: if it is undefined or a
function, cannot be looked up or cannot be written. The nodes of a view lie side by side in its
text, so a view of literal text and such names comes out as it is. To look a dotted name up does
nothing to the store, which is why it does not matter what was looked up before.
-/

namespace Stencil

open Grammar

/-! # Looking up dotted names -/

namespace Evaluation

theorem permits_eq : Permits Eq Failure.IsTold where
  refl _ := rfl
  trans := Eq.trans
  told _ := id

variable (host : Host) (scope : Nat)

theorem unchanged_ofWord (word : String) :
    Changes Eq Failure.IsTold ((Expr.ofWord word).eval host scope) := by
  unfold Expr.ofWord
  split
  all_goals first
    | exact .pure permits_eq _
    | exact .reads permits_eq fun _ => .ok _

theorem unchanged_path {tree : Expr} (h : IsPath tree) :
    Changes Eq Failure.IsTold (tree.eval host scope) := by
  induction h with
  | word word => exact unchanged_ofWord host scope word
  | @member target name _ ih =>
      have hkey : Changes Eq Failure.IsTold ((Expr.literal (.str name)).eval host scope) :=
        .pure permits_eq _
      cases target with
      | this =>
          exact hkey.bind permits_eq fun k =>
            .reads permits_eq fun σ => tells_receiverMember σ scope k
      | _ =>
          exact hkey.bind permits_eq fun k => ih.bind permits_eq fun v =>
            .reads permits_eq fun σ => σ.tells_member v k

theorem unchanged_evalSource {path : String} (h : Dotted path.toList) :
    Changes Eq Failure.IsTold (evalSource host scope path) := by
  rcases exists_compile_of_dotted h with ⟨tree, hpath, hcompile⟩
  rw [evalSource, hcompile]
  exact unchanged_path host scope hpath

theorem unchanged_textOfSource {path : String} (h : Dotted path.toList) :
    Changes Eq Failure.IsTold (textOfSource host scope path) :=
  (unchanged_evalSource host scope h).bind permits_eq fun v =>
    .reads permits_eq fun σ => σ.tells_outputText v

end Evaluation

/-! # What nodes are written with -/

namespace Node

/-- Whether a node is literal text or a shorthand, which are written as the text they stand for. -/
def isPlain : Node → Bool
  | text _ _ => true
  | shorthand _ _ => true
  | _ => false

def source : Node → List Char
  | text _ s => s.toList
  | shorthand _ path => '@' :: path.toList
  | _ => []

end Node

section Places

variable {text : List Char}

theorem Covers.source_eq {start stop : Nat} {node : Node} (h : Covers text start node stop)
    (hplain : node.isPlain = true) : start ≤ stop ∧ node.source = slice text start stop := by
  cases h with
  | text hrun => exact ⟨Nat.le_of_lt hrun.ahead, String.toList_ofList⟩
  | shorthand hstands =>
      refine ⟨Nat.le_of_lt hstands.ahead, ?_⟩
      rw [slice_cons hstands.sign hstands.ahead, slice,
        Directive.take_of_shorthand hstands.read]
      rfl
  | _ => cases hplain

theorem Tiles.source_eq {start stop : Nat} {nodes : List Node} :
    Tiles text start nodes stop → (∀ node ∈ nodes, node.isPlain = true) →
      start ≤ stop ∧ nodes.flatMap Node.source = slice text start stop
  | .nil, _ => ⟨Nat.le_refl _, slice_self.symm⟩
  | .concat hbefore hlast, hplain => by
      rcases hbefore.source_eq fun node hnode => hplain node (List.mem_append_left _ hnode) with
        ⟨hfirst, hsources⟩
      rcases hlast.source_eq (hplain _ (by simp)) with ⟨hsecond, hsource⟩
      refine ⟨Nat.le_trans hfirst hsecond, ?_⟩
      rw [List.flatMap_append, hsources, List.flatMap_singleton, hsource,
        slice_append hfirst hsecond]

end Places

theorem View.source_of_parse {text : String} {nodes : List Node} (h : parse text = .ok nodes)
    (hplain : ∀ node ∈ nodes, node.isPlain = true) : nodes.flatMap Node.source = text.toList := by
  rw [((tiles_of_parse h).source_eq hplain).2, slice, List.drop_zero, Nat.sub_zero,
    List.take_length]

/-! # What nodes put out -/

/--
Whether a path has no text: it cannot be looked up, it is undefined or a function, or what it leads
to cannot be written.
-/
def Unresolved (host : Host) (σ : Store) (path : String) : Prop :=
  ∀ v, (evalSource host 0 path σ).1 = .ok v →
    v.isUndefined = true ∨ v.isCallable = true ∨ ∃ failure, σ.outputText v = .error failure

theorem Store.outputText_ne_some (σ : Store) {v : Value}
    (h : v.isUndefined = true ∨ v.isCallable = true ∨ ∃ failure, σ.outputText v = .error failure)
    (text : Text) : σ.outputText v ≠ .ok (some text) := by
  rcases h with h | h | ⟨failure, h⟩
  · cases v <;> cases h
    simp [outputText]
  · cases v <;> cases h
    simp [outputText]
  · rw [h]
    simp

theorem Unresolved.text_eq_none {host : Host} {σ : Store} {path : String}
    (hdotted : Dotted path.toList) (h : Unresolved host σ path) {text : Option Text}
    (htext : (textOfSource host 0 path σ).1 = .ok text) : text = none := by
  have hstore := (Evaluation.unchanged_evalSource host 0 hdotted σ).1
  rw [textOfSource, bind_def] at htext
  generalize hrun : evalSource host 0 path σ = run at hstore htext
  rcases run with ⟨failure | v, after⟩
  · cases htext
  · cases hstore
    cases text with
    | none => rfl
    | some text => exact absurd htext (Store.outputText_ne_some _ (h v (by rw [hrun])) text)

theorem Text.ofChars_append (cs ds : List Char) :
    Text.ofChars (cs ++ ds) = Text.ofChars cs ++ Text.ofChars ds :=
  congrArg Text.mk List.map_append

namespace Rendering

variable {host : Host} {s : RenderState}

theorem textOf_unresolved {path : String} (hdotted : Dotted path.toList)
    (h : Unresolved host s.store path) :
    ∃ events, textOf host 0 path s = (.ok none, { s with events := events }) := by
  have hchanges := Evaluation.unchanged_textOfSource host 0 hdotted s.store
  have hnone := fun text => @Unresolved.text_eq_none host s.store path hdotted h text
  generalize hrun : textOfSource host 0 path s.store = run at hchanges hnone
  rcases run with ⟨failure | text, after⟩
  · rcases hchanges with ⟨hstore, htold⟩
    cases hstore
    refine ⟨.expressionFailed (Text.strip path) ⟨failure.kind, failure.message⟩ :: s.events, ?_⟩
    rw [textOf, recover, bind_def, onStore, hrun]
    dsimp only
    rw [htold failure rfl]
    rfl
  · cases hchanges.1
    cases hnone text rfl
    refine ⟨s.events, ?_⟩
    rw [textOf, recover, bind_def, onStore, hrun]
    rfl

theorem renderNode_plain (enter : Inclusion → Rendering Text) {node : Node}
    (hread : node.IsRead) (hplain : node.isPlain = true)
    (hpaths : ∀ line path, node = .shorthand line path → Unresolved host s.store path) :
    ∃ events, renderNode host enter 0 node s =
      (.ok (Text.ofChars node.source), { s with events := events }) := by
  cases node with
  | text line text =>
      refine ⟨s.events, ?_⟩
      rw [renderNode]
      rfl
  | shorthand line path =>
      have hdotted : Dotted path.toList := Directive.IsRead.isNormal hread
      rcases textOf_unresolved hdotted (hpaths line path rfl) with ⟨events, htext⟩
      refine ⟨events, ?_⟩
      rw [renderNode, bind_def, htext]
      rfl
  | _ => cases hplain

theorem renderAll_plain (enter : Inclusion → Rendering Text) {nodes : List Node}
    (hread : ∀ node ∈ nodes, node.IsRead) (hplain : ∀ node ∈ nodes, node.isPlain = true)
    (hpaths : ∀ line path, .shorthand line path ∈ nodes → Unresolved host s.store path) :
    ∃ events, renderAll host enter 0 nodes s =
      (.ok (Text.ofChars (nodes.flatMap Node.source)), { s with events := events }) := by
  induction nodes generalizing s with
  | nil =>
      refine ⟨s.events, ?_⟩
      rw [renderAll]
      rfl
  | cons node rest ih =>
      rw [List.forall_mem_cons] at hread hplain
      have hfirst : ∀ line path, node = .shorthand line path → Unresolved host s.store path :=
        fun line path h => hpaths line path (h ▸ List.mem_cons_self)
      rcases renderNode_plain enter hread.1 hplain.1 hfirst with ⟨events, hnode⟩
      rcases @ih { s with events := events } hread.2 hplain.2
        (fun line path h => hpaths line path (List.mem_cons_of_mem node h)) with ⟨later, hrest⟩
      refine ⟨later, ?_⟩
      rw [renderAll_cons_ok hnode hrest, List.flatMap_cons, Text.ofChars_append]

end Rendering

/-! # Renders -/

namespace Engine

/--
Markup that means nothing is reproduced. A view that is parsed into literal text and shorthands
only, none of which has a text, is put out as it is written.
-/
theorem renderSource_reproduced (engine : Engine) (host : Host) (view : Option Text)
    {text : String} {nodes : List Node} (hparse : View.parse text = .ok nodes)
    (hplain : ∀ node ∈ nodes, node.isPlain = true) {data : Value} {entries : Entries Value}
    (hdata : renderData engine.store data = .ok entries)
    (hpaths : ∀ line path, .shorthand line path ∈ nodes →
      Unresolved host (engine.store.restart entries engine.helpers) path) :
    ∃ rendered, (engine.renderSource host text view data).1 = .ok rendered ∧
      rendered.output = text := by
  have hread : ∀ node ∈ nodes, node.IsRead := by
    intro node hnode
    exact View.allRead_of_parse hparse node
      (Node.mem_walkAll.mpr ⟨node, hnode, Node.mem_walk_self node⟩)
  let start : RenderState :=
    ⟨engine.store.restart entries engine.helpers, engine.cache, [.renderStarted], []⟩
  rcases @Rendering.renderAll_plain host start
    (renderInclude (engine.setup host) (engine.setup host).maxDepth (Site.top view)) nodes hread
    hplain hpaths with ⟨events, hrender⟩
  have hview : renderView (engine.setup host) view nodes start =
      (.ok (Text.ofString text), { start with events := events }) := by
    rw [Text.ofString, ← View.source_of_parse hparse hplain]
    exact hrender
  rw [renderSource_fst hparse hdata, hview]
  exact ⟨_, rfl, rfl⟩

/-- Addresses, lone at signs and words that look like directives are reproduced. -/
theorem renderSource_reproduced_lookalikes :
    let data : Value := .map [(.str "x", .map []), (.str "f", .callable (.builtin .upper))]
    ∃ rendered,
      (viewless.renderSource .none "me@x.org, @ @f@@iffy.\n@x.end" none data).1 = .ok rendered ∧
        rendered.output = Text.ofString "me@x.org, @ @f@@iffy.\n@x.end" := by
  intro data
  have hnodes : (View.parse "me@x.org, @ @f@@iffy.\n@x.end").map (fun nodes =>
      (nodes.all Node.isPlain, Node.references nodes)) =
        .ok (true, ["x.org", "f", "iffy", "x.end"]) := by
    decide +kernel
  rcases map_eq_ok_iff.mp hnodes with ⟨nodes, hparse, hfound⟩
  rcases Prod.mk.inj hfound with ⟨hplain, hreferences⟩
  let σ := viewless.store.restart
    [(.str "x", .map []), (.str "f", .callable (.builtin .upper))] viewless.helpers
  have hundefined : (evalSource .none 0 "x.org" σ).1 = .ok .undefined ∧
      (evalSource .none 0 "iffy" σ).1 = .ok .undefined ∧
      (evalSource .none 0 "x.end" σ).1 = .ok .undefined := by
    cbv
  have hfunction : (evalSource .none 0 "f" σ).1 = .ok (.callable (.builtin .upper)) := by
    cbv
  apply viewless.renderSource_reproduced .none none hparse (List.all_eq_true.mp hplain) rfl
  intro line path hpath v hv
  have hmem : path ∈ Node.references nodes :=
    List.mem_flatMap.mpr ⟨.shorthand line path,
      Node.mem_walkAll.mpr ⟨_, hpath, Node.mem_walk_self _⟩, List.mem_singleton_self path⟩
  rw [hreferences] at hmem
  simp only [List.mem_cons, List.not_mem_nil, or_false] at hmem
  rcases hmem with rfl | rfl | rfl | rfl
  · cases hundefined.1.symm.trans hv
    exact .inl rfl
  · cases hfunction.symm.trans hv
    exact .inr (.inl rfl)
  · cases hundefined.2.1.symm.trans hv
    exact .inl rfl
  · cases hundefined.2.2.symm.trans hv
    exact .inl rfl

end Engine
end Stencil
