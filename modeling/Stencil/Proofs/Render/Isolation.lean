import Stencil.Proofs.Render.Lengths
import Stencil.Proofs.Render.Mirroring
import Stencil.Proofs.Renaming.Embedding
import Stencil.Proofs.Value.Names

/-!
# Loops and includes stand alone

A loop or an include leaves every scope as it finds it. So the rounds of a loop do not see each
other: each gives the text that its body would give if it were rendered by itself, in a fresh
scope inside the one that the loop stands in, and the loop puts these texts together.

A round that is rendered later works on a larger store. The store in which the loop begins is
held by that larger one, under a renaming of the scopes and marks that come next, and a round
gives the same text in both.
-/

namespace Stencil

/-! # What a round binds -/

theorem Round.nodup_named {item index : String}
    (h : [item, index, "key", "value", "isFirst", "isLast"].Nodup) (i count : Nat)
    (element : Option Key × Value) :
    ((Round.named item index i count element).map Prod.fst).Nodup := by
  rcases element with ⟨key?, value⟩
  cases key? with
  | some key => exact h
  | none => exact h.sublist (.cons_cons _ (.cons_cons _ (.cons _ (.cons _ (.refl _)))))

/-! # What is seen in a round -/

namespace Entries

theorem ofPairs_concat (named : List (String × Value)) (name : String) (value : Value) :
    ofPairs (ofNamed (named ++ [(name, value)])) =
      (ofPairs (ofNamed named)).put (.str name) value := by
  rw [ofNamed, List.map_append]
  exact merge_concat [] (ofNamed named) (.str name) value

theorem get?_ofNamed {named : List (String × Value)} (hnames : (named.map Prod.fst).Nodup)
    {entry : String × Value} (hentry : entry ∈ named) :
    (ofPairs (ofNamed named)).get? (.str entry.1) = some entry.2 := by
  induction named using List.reverseRecOn with
  | nil => cases hentry
  | append_singleton named last ih =>
      rcases last with ⟨name, value⟩
      rw [List.map_append, List.nodup_append] at hnames
      rw [ofPairs_concat, get?_put_str]
      rcases List.mem_append.mp hentry with hold | hlast
      · have hne : Text.ofString name ≠ Text.ofString entry.1 := by
          intro hsame
          exact hnames.2.2 entry.1 (List.mem_map_of_mem hold) name List.mem_cons_self
            (Text.ofString_injective hsame).symm
        rw [if_neg hne]
        exact ih hnames.1 hold
      · rw [List.mem_singleton.mp hlast, if_pos rfl]

theorem get?_ofNamed_none {named : List (String × Value)} {name : String}
    (hname : name ∉ named.map Prod.fst) : (ofPairs (ofNamed named)).get? (.str name) = none := by
  induction named using List.reverseRecOn with
  | nil => rfl
  | append_singleton named last ih =>
      rcases last with ⟨other, value⟩
      rw [List.map_append, List.mem_append, not_or] at hname
      have hne : Text.ofString other ≠ Text.ofString name := by
        intro hsame
        exact hname.2 (List.mem_singleton.mpr (Text.ofString_injective hsame).symm)
      rw [ofPairs_concat, get?_put_str, if_neg hne]
      exact ih hname.1

end Entries

namespace Store

/-- What is seen in a scope inside another: what is bound there, and all else as around it. -/
structure Sees (σ : Store) (scope : Nat) (bound : List (String × Value)) (this : Value)
    (opened : Nat × Store) : Prop where
  receiver : opened.2.receiver opened.1 = this
  named : ∀ entry ∈ bound, opened.2.lookup opened.1 entry.1 = entry.2
  others : ∀ name, name ∉ bound.map Prod.fst →
    opened.2.lookup opened.1 name = σ.lookup scope name

variable {σ : Store} {scope : Nat}

theorem bound?_child (hpath : ∀ p ∈ σ.path scope, p < σ.scopes.size) (bindings : Entries Value)
    (receiver : Option Value) (key : Key) :
    (σ.child scope bindings receiver).2.bound? σ.scopes.size key =
      ((Entries.ofPairs bindings).get? key).or (σ.bound? scope key) := by
  have hframes := Frames.child σ scope bindings receiver
  have hinner : (σ.child scope bindings receiver).2.scopes[σ.scopes.size]? =
      some ⟨σ.path scope, .ofPairs bindings, receiver⟩ := Array.getElem?_push_size
  rw [bound?, path, outer, hinner, List.findSome?_cons, own, hinner,
    hframes.findSome?_own_eq key hpath]
  cases (Entries.ofPairs bindings).get? key <;> rfl

theorem sees_child (hpath : ∀ p ∈ σ.path scope, p < σ.scopes.size)
    {named : List (String × Value)} (hnames : (named.map Prod.fst).Nodup) (receiver : Value) :
    σ.Sees scope named receiver (σ.child scope (.ofNamed named) (some receiver)) where
  receiver := by
    have hinner : (σ.child scope (.ofNamed named) (some receiver)).2.scopes[σ.scopes.size]? =
        some ⟨σ.path scope, .ofPairs (.ofNamed named), some receiver⟩ := Array.getElem?_push_size
    show (σ.child scope (.ofNamed named) (some receiver)).2.receiver σ.scopes.size = receiver
    rw [Store.receiver, hinner]
    rfl
  named entry hentry := by
    show (σ.child scope (.ofNamed named) (some receiver)).2.lookup σ.scopes.size entry.1 = entry.2
    rw [lookup, bound?_child hpath, Entries.get?_ofNamed hnames hentry]
    rfl
  others name hname := by
    show (σ.child scope (.ofNamed named) (some receiver)).2.lookup σ.scopes.size name =
      σ.lookup scope name
    rw [lookup, bound?_child hpath, Entries.get?_ofNamed_none hname, Option.none_or]
    rfl

end Store

theorem Host.ChangesNothing.lengthensNothing {host : Host} (h : host.ChangesNothing) :
    host.LengthensNothing := by
  intro σ place name args
  rw [h.changes]
  exact Store.noLonger_of_shared rfl

/-! # Rounds -/

def Text.concat (texts : List Text) : Text :=
  texts.foldr (· ++ ·) ""

namespace Rendering

def loopBody (setup : RenderSetup) (left : Nat) (site : Site) (nodes : List Node) (inner : Nat) :
    Rendering Text :=
  renderAll setup.host (renderInclude setup left site) inner nodes

/--
Every expression has a value, if only an undefined one, unless a function of the host fails with
what cannot be told or caught. Nothing is fetched for it.
-/
theorem valueOf_cases (host : Host) (scope : Nat) (source : String) (s : RenderState) :
    (∃ value after, valueOf host scope source s = (.ok value, after) ∧
      after.store = (evalSource host scope source s.store).2 ∧
        after.cache = s.cache ∧ after.includes = s.includes) ∨
    ∃ again after, host.Escapes again ∧
      valueOf host scope source s = (.error again.trouble, after) := by
  unfold valueOf recover
  rw [bind_def]
  unfold onStore
  rcases hrun : evalSource host scope source s.store with ⟨failure | value, store⟩
  · dsimp only
    cases htold : failure.told with
    | ok text => exact .inl ⟨.undefined, _, rfl, rfl, rfl, rfl⟩
    | error again =>
        have hevals := Evaluation.changes_evalSource (Evaluation.allows_raises host scope) source
        have hfailure := congrArg Prod.fst hrun
        exact .inr ⟨again, _, Evaluation.escapes_of_changes hevals hfailure htold, rfl⟩
  · exact .inl ⟨value, _, rfl, rfl, rfl, rfl⟩

/-! # Closed stores -/

def answersOf (source : ViewSource) (s : RenderState) : ViewNodes := fun path =>
  (fetch source path s).1

def pairingOf (Related : Store → Store → Prop) (source : ViewSource) (s t : RenderState) :
    Pairing where
  Related := Related
  source := source
  answer := answersOf source s
  excused _ := False
  included := s.includes
  includedOther := t.includes

theorem follows_self (source : ViewSource) {s : RenderState} (hclosed : s.store.IsClosed) :
    s.Follows (pairingOf (Store.Embeds .identity) source s s) s where
  store := hclosed.embeds
  answers _ := rfl
  others _ := rfl
  includes := ⟨[], rfl, rfl⟩

theorem isClosed_of_follows {α : Type} {R : Extent → α → α → Prop} {source : ViewSource}
    {action : Rendering α} {s : RenderState} (hclosed : s.store.IsClosed)
    (h : Follows (pairingOf (Store.Embeds .identity) source s s) s.store.extent R action action) :
    (action s).2.store.IsClosed := by
  have hagrees := h.agrees (fun _ => id) (follows_self source hclosed) (.refl _)
  exact ⟨hagrees.after.store, Nat.lt_of_lt_of_le hclosed.mark_pos hagrees.grown.marks⟩

theorem valueOf_within {host : Host} (hhost : host.IsPure) (views : ViewSource) {s s' : RenderState}
    (hclosed : s.store.IsClosed) {scope : Nat} (hscope : scope < s.store.scopes.size)
    {source : String} {value : Value} (h : valueOf host scope source s = (.ok value, s')) :
    s'.store.IsClosed ∧ Value.Renamed .identity s'.store.extent value value := by
  have hfollows : Follows (pairingOf (Store.Embeds .identity) views s s) s.store.extent
      (Value.Renamed .identity) (valueOf host scope source) (valueOf host scope source) :=
    .valueOf (Store.simulation_embeds .identity 0) hhost ⟨Nat.zero_le _, hscope⟩ source
  have hafter := isClosed_of_follows hclosed hfollows
  have houtcome := (hfollows.agrees (fun _ => id) (follows_self views hclosed) (.refl _)).outcome
  rw [h] at houtcome hafter
  cases houtcome with
  | ok hvalue => exact ⟨hafter, hvalue⟩

theorem elements_within {σ : Store} (hclosed : σ.IsClosed) {collection : Value}
    (hcollection : Value.Renamed .identity σ.extent collection collection) :
    ∀ element ∈ σ.elements collection, ElementRenamed .identity σ.extent element element :=
  List.forall₂_same.mp (elements_renamed hclosed.embeds.mirrors hcollection)

section Includes

variable {setup : RenderSetup} (hhost : setup.host.IsPure) (left : Nat) (site : Site)

include hhost

/-! # Later rounds -/

variable (nodes : List Node) {s₀ : RenderState} (hclosed : s₀.store.IsClosed) {scope : Nat}
  (hscope : scope < s₀.store.scopes.size)

include hclosed hscope

theorem alone_later {round : Round}
    (hround : RoundRenamed .identity s₀.store.extent round round) {s : RenderState}
    (hframes : Store.Frames none s₀.store s.store)
    (hanswers : s.Answers setup.source (answersOf setup.source s₀)) :
    (alone (loopBody setup left site nodes) scope round s).1 =
      (alone (loopBody setup left site nodes) scope round s₀).1 ∧
    Store.Frames none s₀.store (alone (loopBody setup left site nodes) scope round s).2.store ∧
    (alone (loopBody setup left site nodes) scope round s).2.Answers setup.source
      (answersOf setup.source s₀) := by
  have hagrees := Renaming.agrees_later s₀.store s.store hclosed.mark_pos
  have hembeds := hclosed.embeds_later hframes
  have hsame : (Renaming.later s₀.store s.store hclosed.mark_pos).place scope = scope :=
    if_pos hscope
  generalize Renaming.later s₀.store s.store hclosed.mark_pos = ρ at hagrees hembeds hsame
  have sim := Store.simulation_embeds ρ 0
  have hfollows : Follows (pairingOf (Store.Embeds ρ) setup.source s₀ s)
      s₀.store.extent (fun _ => Eq) (alone (loopBody setup left site nodes) scope round)
      (alone (loopBody setup left site nodes) (ρ.place scope) round) := by
    refine (Follows.child sim ⟨Nat.zero_le _, hscope⟩ (hagrees.entries hround.bindings)
      (.some (hagrees.value hround.receiver))).bind ?_
    rintro f _ inner _ ⟨hinner, rfl⟩
    exact Follows.renderAll sim hhost
      (includesFollow_renderInclude sim rfl hhost left (.same left site)) hinner nodes
  have hwrites : Writes none (alone (loopBody setup left site nodes) scope round) :=
    .inChild _ _ _ fun inner => Writes.renderAll hhost.changesNothing
      (Writes.renderInclude hhost.changesNothing left site) inner nodes
  rw [hsame] at hfollows
  have hstates : s₀.Follows (pairingOf (Store.Embeds ρ) setup.source s₀ s) s :=
    ⟨hembeds, fun _ => rfl, hanswers, ⟨[], rfl, rfl⟩⟩
  have hruns := hfollows.agrees (fun _ => id) hstates (.refl _)
  exact ⟨hruns.outcome.eq.symm, hframes.trans (hwrites s), hruns.after.others⟩

/--
The rounds of a loop give what each of them gives by itself, as long as the loop finds the same
elements in each round. The induction is on how far the loop is followed.
-/
theorem renderRounds_eq_alone {rounds : Nat} {loop : Loop} {elements : List (Option Key × Value)}
    (helements : ∀ element ∈ elements, ElementRenamed .identity s₀.store.extent element element)
    (hover : ∀ τ, Store.Frames none s₀.store τ → τ.elements loop.collection = elements)
    (hrounds : elements.length ≤ rounds + loop.turn) {s : RenderState}
    (hframes : Store.Frames none s₀.store s.store)
    (hanswers : s.Answers setup.source (answersOf setup.source s₀)) :
    (renderRounds (loopBody setup left site nodes) scope rounds loop s).1 =
      ((elements.zipIdx.drop loop.turn).mapM fun x =>
        (alone (loopBody setup left site nodes) scope
          (.ofElement loop.item loop.index loop.count x) s₀).1).map Text.concat := by
  induction rounds generalizing loop s with
  | zero =>
      have hpast : elements.length ≤ loop.turn := by omega
      have hnone : loop.next? s.store = none := by
        rw [Loop.next?, hover _ hframes, List.getElem?_eq_none hpast]
        rfl
      rw [renderRounds_done hnone, List.drop_eq_nil_of_le (by rwa [List.length_zipIdx])]
      rfl
  | succ rounds ih =>
      cases hfound : elements[loop.turn]? with
      | none =>
          have hpast := List.getElem?_eq_none_iff.mp hfound
          have hnone : loop.next? s.store = none := by
            rw [Loop.next?, hover _ hframes, hfound]
            rfl
          rw [renderRounds_done hnone, List.drop_eq_nil_of_le (by rwa [List.length_zipIdx])]
          rfl
      | some element =>
          have hnext : loop.next? s.store =
              some (.ofElement loop.item loop.index loop.count (element, loop.turn),
                { loop with turn := loop.turn + 1 }) := by
            rw [Loop.next?, hover _ hframes, hfound]
            rfl
          have hdrop : elements.zipIdx.drop loop.turn =
              (element, loop.turn) :: elements.zipIdx.drop (loop.turn + 1) := by
            refine List.drop_eq_getElem?_toList_append.trans ?_
            rw [List.getElem?_zipIdx, hfound, Nat.zero_add]
            rfl
          have hround := round_renamed (helements element (List.mem_of_getElem? hfound)) loop.item
            loop.index loop.count loop.turn
          rcases alone_later hhost left site nodes hclosed hscope hround hframes hanswers with
            ⟨hfirst, hlater, hkept⟩
          have hfewer : elements.length ≤ rounds + (loop.turn + 1) := by omega
          have hrest := @ih { loop with turn := loop.turn + 1 } hover hfewer _ hlater hkept
          rw [renderRounds_next hnext, bind_def, hdrop, List.mapM_cons, ← hfirst]
          dsimp only at hrest
          generalize alone (loopBody setup left site nodes) scope
            (.ofElement loop.item loop.index loop.count (element, loop.turn)) s = run at hrest ⊢
          rcases run with ⟨result, after⟩
          cases result with
          | error trouble => rfl
          | ok first =>
              dsimp only at hrest ⊢
              rw [bind_def]
              generalize renderRounds _ scope rounds _ after = run at hrest ⊢
              generalize (List.mapM _ _ : Except Trouble (List Text)) = texts at hrest ⊢
              rcases run with ⟨others, last⟩
              subst hrest
              cases texts <;> rfl

end Includes

end Rendering

/-! # Isolation -/

def Node.opensScopes : Node → Bool
  | .loop _ _ _ _ _ => true
  | .inclusion _ _ _ => true
  | _ => false

/--
In a closed store, which a render starts with and keeps, a loop or an include changes the meaning
of no name in any scope that is there before. A loop over a sequence or a mapping gives the texts
of its rounds one after the other, or fails as the first of them that fails, where each round is
rendered by itself in the store as the collection leaves it. (The collection itself cannot be had if
a function of the host fails with what cannot be told or caught.) The collection may cost marks and
calls, but the scopes are still the same; and in the fresh scope of a round an element, its
position and its key are bound, the element is the receiver, and all other names mean what they
mean outside.
-/
theorem loop_and_include_isolated {setup : RenderSetup} (hhost : setup.host.IsPure) (left : Nat)
    (site : Site) {s : RenderState} (hclosed : s.store.IsClosed) {scope : Nat}
    (hscope : scope < s.store.scopes.size) :
    (∀ node : Node, node.opensScopes = true → ∀ place < s.store.scopes.size, ∀ name,
      (renderNode setup.host (renderInclude setup left site) scope node s).2.store.lookup place
        name = s.store.lookup place name) ∧
    ∀ line item index source nodes,
      [item, index, "key", "value", "isFirst", "isLast"].Nodup →
      (∃ again after, setup.host.Escapes again ∧
        Rendering.valueOf setup.host scope source s = (.error again.trouble, after) ∧
        (renderNode setup.host (renderInclude setup left site) scope
            (.loop line item index source nodes) s).1 = .error again.trouble) ∨
      ∃ collection s₀ elements,
        Rendering.valueOf setup.host scope source s = (.ok collection, s₀) ∧
        s.store.Counts s₀.store ∧
        s₀.store.elements collection = elements ∧
        (renderNode setup.host (renderInclude setup left site) scope
            (.loop line item index source nodes) s).1 =
          (elements.zipIdx.mapM fun x =>
            (Rendering.alone (Rendering.loopBody setup left site nodes) scope
              (.ofElement item index elements.length x) s₀).1).map Text.concat ∧
        ∀ x ∈ elements.zipIdx, ∀ round, Round.ofElement item index elements.length x = round →
          s₀.store.Sees scope (Round.named item index x.2 elements.length x.1) x.1.2
            (s₀.store.child scope round.bindings (some round.receiver)) := by
  constructor
  · intro node hnode place hplace name
    have hwrites : Rendering.Writes none
        (renderNode setup.host (renderInclude setup left site) scope node) := by
      have henter := Rendering.Writes.renderInclude hhost.changesNothing left site
      cases node with
      | loop line item index source nodes =>
          exact .renderLoop hhost.changesNothing henter scope line item index source nodes
      | inclusion line path data =>
          rw [renderNode]
          exact henter _
      | _ => cases hnode
    exact (hwrites s).lookup_eq (hclosed.embeds.path_lt hplace) name
  · intro line item index source nodes hnames
    rcases Rendering.valueOf_cases setup.host scope source s with
      ⟨collection, s₀, hvalue, hstore, _⟩ | ⟨again, after, hagain, hvalue⟩
    case inr =>
      refine .inl ⟨again, after, hagain, hvalue, ?_⟩
      rw [renderNode, bind_def, hvalue]
    refine .inr ?_
    have hcounts : s.store.Counts s₀.store := by
      rw [hstore]
      exact Evaluation.leavesScopes_evalSource hhost.changesNothing scope source s.store
    rcases Rendering.valueOf_within hhost setup.source hclosed hscope hvalue with
      ⟨hclosed₀, hcollection⟩
    have hscope₀ : scope < s₀.store.scopes.size :=
      Nat.lt_of_lt_of_le hscope hcounts.frames.size_le
    refine ⟨collection, s₀, _, hvalue, hcounts, rfl, ?_, ?_⟩
    · have helements := Rendering.elements_within hclosed₀ hcollection
      have hover : ∀ τ, Store.Frames none s₀.store τ →
          τ.elements (Loop.begin s₀.store item index collection).collection =
            s₀.store.elements collection :=
        fun τ hframes => Loop.elements_begin item index collection hframes.shared
      have hrounds := Rendering.renderRounds_eq_alone hhost left site nodes hclosed₀ hscope₀
        helements hover (Nat.le_add_right _ setup.host.patience) (.refl none s₀.store)
        fun _ => rfl
      rw [renderNode, bind_def, hvalue]
      exact hrounds
    · rintro x _ round rfl
      exact Store.sees_child (hclosed₀.embeds.path_lt hscope₀) (Round.nodup_named hnames _ _ _) _

/-! # A loop over a row of two -/

theorem Host.identity_isPure : Host.identity.IsPure where
  changesNothing := ⟨fun _ _ _ _ => rfl, fun _ _ _ _ => rfl⟩
  answers ρ σ τ scope name args others _ _ hargs := by
    cases hargs with
    | nil => exact .error _
    | cons hv hrest =>
        cases hrest with
        | nil => exact .ok hv
        | cons => exact .error _

theorem Host.identity_tells : Host.identity.Tells := by
  rintro failure ⟨σ, scope, name, args, hraised⟩
  dsimp only [identity] at hraised
  split at hraised
  · cases hraised
  · cases hraised
    rfl

def RenderState.ofTwo : RenderState where
  store :=
    .ofData [(.str "xs", .list [.int 1, .int 2])] [("ident", .callable (.host "ident" false))]
  cache := none
  events := []
  includes := []

theorem RenderState.ofTwo_isClosed : RenderState.ofTwo.store.IsClosed := by
  apply Store.isClosed_of_root rfl Nat.one_pos
  · refine .cons ⟨Key.renamed_str _ _ _, .ofItems ?_⟩ .nil
    exact .cons (.constant rfl) (.cons (.constant rfl) .nil)
  · intro entry hentry
    rw [List.mem_singleton.mp hentry]
    exact .constant rfl
  · exact fun _ hcontainer => (List.not_mem_nil hcontainer).elim

/-- A name that is declared in a loop or in an included view means nothing after it. -/
theorem loop_and_include_isolated_two :
    let setup : RenderSetup :=
      ⟨Host.identity, MemoryViews.source "html" [("card.html", "@var y = 3;")], 2⟩
    let site := Site.top none
    let nodes : List Node := [.declaration 2 (.name "y") "x", .interpolation 3 "y"]
    (renderNode setup.host (renderInclude setup 2 site) 0 (.loop 1 "x" "i" "ident(xs)" nodes)
      RenderState.ofTwo).2.store.lookup 0 "y" = .undefined ∧
    (renderNode setup.host (renderInclude setup 2 site) 0 (.inclusion 4 "card" none)
      RenderState.ofTwo).2.store.lookup 0 "y" = .undefined ∧
    ∃ collection s₀ elements,
      Rendering.valueOf setup.host 0 "ident(xs)" RenderState.ofTwo = (.ok collection, s₀) ∧
      s₀.store.elements collection = elements ∧
      (renderNode setup.host (renderInclude setup 2 site) 0 (.loop 1 "x" "i" "ident(xs)" nodes)
          RenderState.ofTwo).1 =
        (elements.zipIdx.mapM fun x =>
          (Rendering.alone (Rendering.loopBody setup 2 site nodes) 0
            (.ofElement "x" "i" elements.length x) s₀).1).map Text.concat := by
  intro setup site nodes
  have hpure : setup.host.IsPure := Host.identity_isPure
  have hisolated := loop_and_include_isolated hpure 2 site RenderState.ofTwo_isClosed Nat.one_pos
  refine ⟨?_, ?_, ?_⟩
  · exact hisolated.1 (.loop 1 "x" "i" "ident(xs)" nodes) rfl 0 Nat.one_pos "y"
  · exact hisolated.1 (.inclusion 4 "card" none) rfl 0 Nat.one_pos "y"
  · have htells : ∀ again, ¬ setup.host.Escapes again := Host.identity_tells.not_escapes
    rcases (hisolated.2 1 "x" "i" "ident(xs)" nodes (by decide)).resolve_left
        fun ⟨again, _, hagain, _⟩ => htells again hagain with
      ⟨collection, s₀, elements, hvalue, _, helements, hresult, _⟩
    exact ⟨collection, s₀, elements, hvalue, helements, hresult⟩

end Stencil
