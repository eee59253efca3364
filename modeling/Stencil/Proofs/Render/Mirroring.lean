import Stencil.Proofs.Cache.Answers
import Stencil.Proofs.Render.Caching
import Stencil.Proofs.Renaming.Evaluation

/-!
# Renders in mirrored stores

A view that is rendered in a store and in one that mirrors it gives the same text or ends in the
same trouble, whatever has been told or cached before, as long as the two caches answer alike. As
for evaluations, this is proved for any relation between stores that renders keep.

The second render may have less room for includes, and more views under way. Then it may be stopped
where the first goes on, and from there on nothing more is said about the two.
-/

namespace Stencil

variable {ρ : Renaming} {floor : Nat}

/-! # Related renders -/

abbrev ViewNodes : Type := Text → Except Trouble (List Node)

/-- Whether these nodes come back when they are asked for, from the cache or not. -/
def RenderState.Answers (source : ViewSource) (answer : ViewNodes) (s : RenderState) : Prop :=
  ∀ path, (Rendering.fetch source path s).1 = answer path

/-- How two renders that go side by side are compared. -/
structure Pairing where
  Related : Store → Store → Prop
  source : ViewSource
  answer : ViewNodes
  /-- The troubles in which the second render may end whatever the first does. -/
  excused : Trouble → Prop
  /-- The views that the first render has included when they begin. -/
  included : List Text
  /-- The views that the second render has included when they begin. -/
  includedOther : List Text

structure RenderState.Follows (V : Pairing) (s t : RenderState) : Prop where
  store : V.Related s.store t.store
  answers : s.Answers V.source V.answer
  others : t.Answers V.source V.answer
  includes : ∃ since, s.includes = since ++ V.included ∧ t.includes = since ++ V.includedOther

inductive ConclusionAlike {α β : Type} (R : α → β → Prop) :
    Except Trouble α → Except Trouble β → Prop where
  | ok {a : α} {b : β} : R a b → ConclusionAlike R (.ok a) (.ok b)
  | error (trouble : Trouble) : ConclusionAlike R (.error trouble) (.error trouble)

theorem ConclusionAlike.eq {α : Type} {result other : Except Trouble α}
    (h : ConclusionAlike Eq result other) : result = other := by
  cases h with
  | ok hab => rw [hab]
  | error trouble => rfl

theorem RenderState.Answers.of_cache {source : ViewSource} {answer : ViewNodes}
    {s t : RenderState} (h : s.Answers source answer) (hcache : t.cache = s.cache) :
    t.Answers source answer := by
  intro path
  rw [← h path]
  unfold Rendering.fetch
  rw [hcache]
  cases s.cache <;> rfl

theorem RenderState.Follows.withStore {V : Pairing} {s t : RenderState} (h : s.Follows V t)
    {σ τ : Store} (hστ : V.Related σ τ) :
    RenderState.Follows V { s with store := σ } { t with store := τ } where
  store := hστ
  answers := h.answers.of_cache rfl
  others := h.others.of_cache rfl
  includes := h.includes

structure Pairing.Agrees {α β : Type} (V : Pairing) (R : Extent → α → β → Prop) (s : RenderState)
    (run : Except Trouble α × RenderState) (other : Except Trouble β × RenderState) : Prop where
  outcome : ConclusionAlike (R run.2.store.extent) run.1 other.1
  after : run.2.Follows V other.2
  grown : s.store.extent.Within run.2.store.extent

def Pairing.Excuses {β : Type} (V : Pairing) (other : Except Trouble β × RenderState) : Prop :=
  ∃ trouble, V.excused trouble ∧ other.1 = .error trouble

namespace Rendering

theorem answers_fetch {source : ViewSource} {answer : ViewNodes} {s : RenderState}
    (h : s.Answers source answer) (path : Text) :
    (fetch source path s).2.Answers source answer := by
  intro other
  rw [← h other]
  rcases s with ⟨store, cache, events, includes⟩
  cases cache with
  | none => rfl
  | some cache => exact cache.get_get path other source.parsed

section Follows

variable {V : Pairing} {α β γ δ : Type} {e : Extent}

/-- Computations that agree in related states, unless the second ends in what is excused. -/
def Follows (V : Pairing) (e : Extent) (R : Extent → α → β → Prop) (action : Rendering α)
    (other : Rendering β) : Prop :=
  ∀ s t : RenderState, s.Follows V t → e.Within s.store.extent →
    V.Excuses (other t) ∨ V.Agrees R s (action s) (other t)

theorem Follows.agrees {R : Extent → α → β → Prop} {action : Rendering α} {other : Rendering β}
    (h : Follows V e R action other) (hexcused : ∀ trouble, ¬V.excused trouble) {s t : RenderState}
    (hst : s.Follows V t) (hwithin : e.Within s.store.extent) :
    V.Agrees R s (action s) (other t) := by
  rcases h s t hst hwithin with ⟨trouble, htrouble, _⟩ | hagrees
  · exact absurd htrouble (hexcused trouble)
  · exact hagrees

theorem Follows.idle {R : Extent → α → β → Prop} {action : Rendering α} {other : Rendering β}
    (h : ∀ s t : RenderState, s.Follows V t → e.Within s.store.extent →
      ConclusionAlike (R s.store.extent) (action s).1 (other t).1)
    (haction : ∀ s, (action s).2.store = s.store ∧ (action s).2.cache = s.cache ∧
      (action s).2.includes = s.includes)
    (hother : ∀ s, (other s).2.store = s.store ∧ (other s).2.cache = s.cache ∧
      (other s).2.includes = s.includes) :
    Follows V e R action other := by
  intro s t hst hwithin
  rcases haction s with ⟨hstore, hcache, hincludes⟩
  rcases hother t with ⟨hstore', hcache', hincludes'⟩
  refine .inr ⟨?_, ⟨?_, hst.answers.of_cache hcache, hst.others.of_cache hcache', ?_⟩, ?_⟩
  · rw [hstore]
    exact h s t hst hwithin
  · rw [hstore, hstore']
    exact hst.store
  · rw [hincludes, hincludes']
    exact hst.includes
  · rw [hstore]
    exact .refl _

theorem Follows.pure {R : Extent → α → β → Prop} {a : α} {b : β}
    (h : ∀ f, e.Within f → R f a b) :
    Follows V e R (Pure.pure a : Rendering α) (Pure.pure b : Rendering β) :=
  .idle (fun s _ _ hwithin => .ok (h s.store.extent hwithin)) (fun _ => ⟨rfl, rfl, rfl⟩)
    fun _ => ⟨rfl, rfl, rfl⟩

theorem Follows.throw {R : Extent → α → β → Prop} (trouble : Trouble) :
    Follows V e R (throw trouble : Rendering α) (throw trouble : Rendering β) :=
  .idle (fun _ _ _ _ => .error trouble) (fun _ => ⟨rfl, rfl, rfl⟩) fun _ => ⟨rfl, rfl, rfl⟩

theorem Follows.note (event other : Event) :
    Follows V e (fun _ => Eq) (note event) (note other) :=
  .idle (fun _ _ _ _ => .ok rfl) (fun _ => ⟨rfl, rfl, rfl⟩) fun _ => ⟨rfl, rfl, rfl⟩

theorem Follows.addInclude (path : Text) :
    Follows V e (fun _ => Eq) (addInclude path) (addInclude path) := by
  intro s t hst _
  rcases hst.includes with ⟨since, hleft, hright⟩
  refine .inr ⟨.ok rfl, ⟨hst.store, hst.answers.of_cache rfl, hst.others.of_cache rfl, ?_⟩, .refl _⟩
  exact ⟨path :: since, congrArg (path :: ·) hleft, congrArg (path :: ·) hright⟩

theorem Follows.bind {R : Extent → α → β → Prop} {S : Extent → γ → δ → Prop}
    {action : Rendering α} {other : Rendering β} {next : α → Rendering γ}
    {further : β → Rendering δ} (h : Follows V e R action other)
    (hnext : ∀ f, e.Within f → ∀ a b, R f a b → Follows V f S (next a) (further b)) :
    Follows V e S (action >>= next) (other >>= further) := by
  intro s t hst hwithin
  have hfirst := h s t hst hwithin
  rw [bind_def, bind_def]
  generalize action s = first at hfirst ⊢
  generalize other t = second at hfirst ⊢
  rcases first with ⟨result, s'⟩
  rcases second with ⟨result', t'⟩
  rcases hfirst with ⟨trouble, hexcused, hresult⟩ | ⟨houtcome, hafter, hgrown⟩
  · cases hresult
    exact .inl ⟨trouble, hexcused, rfl⟩
  cases houtcome with
  | error trouble => exact .inr ⟨.error trouble, hafter, hgrown⟩
  | ok hab =>
      have hlast := hnext s'.store.extent (hwithin.trans hgrown) _ _ hab s' t' hafter (.refl _)
      exact hlast.imp_right fun hagrees =>
        ⟨hagrees.outcome, hagrees.after, hgrown.trans hagrees.grown⟩

theorem Follows.read {S : Extent → γ → δ → Prop} {next : RenderState → Rendering γ}
    {further : RenderState → Rendering δ}
    (h : ∀ s t : RenderState, s.Follows V t → e.Within s.store.extent →
      Follows V s.store.extent S (next s) (further t)) :
    Follows V e S (get >>= next) (get >>= further) := by
  intro s t hst hwithin
  exact h s t hst hwithin s t hst (.refl _)

theorem Follows.attemptFetch (path : Text) :
    Follows V e (fun _ => Eq) (attempt (fetch V.source path)) (attempt (fetch V.source path)) := by
  intro s t hst _
  have hsame := (hst.answers path).trans (hst.others path).symm
  refine .inr ⟨.ok hsame,
    ⟨?_, answers_fetch hst.answers path, answers_fetch hst.others path, ?_⟩, ?_⟩
  · show V.Related (fetch V.source path s).2.store (fetch V.source path t).2.store
    rw [store_fetch, store_fetch]
    exact hst.store
  · show ∃ since, (fetch V.source path s).2.includes = _ ∧ (fetch V.source path t).2.includes = _
    rw [includes_fetch, includes_fetch]
    exact hst.includes
  · show s.store.extent.Within (fetch V.source path s).2.store.extent
    rw [store_fetch]
    exact .refl _

theorem Follows.onStore {R : Extent → α → β → Prop} {f : Store → α × Store}
    {g : Store → β × Store}
    (h : ∀ σ τ, V.Related σ τ → e.Within σ.extent →
      R (f σ).2.extent (f σ).1 (g τ).1 ∧ V.Related (f σ).2 (g τ).2 ∧
        σ.extent.Within (f σ).2.extent) :
    Follows V e R (onStore f) (onStore g) := by
  intro s t hst hwithin
  rcases h s.store t.store hst.store hwithin with ⟨hresult, hafter, hgrown⟩
  exact .inr ⟨.ok hresult, hst.withStore hafter, hgrown⟩

theorem Follows.recover {R : Extent → α → β → Prop}
    (hmono : ∀ f g, Extent.Within f g → ∀ a b, R f a b → R g a b) (text : String)
    {action : Evaluation α} {other : Evaluation β} (h : action.Follows V.Related e R other)
    {instead : α} {spare : β} (hinstead : ∀ f, R f instead spare) :
    Follows V e R (recover text action instead) (recover text other spare) := by
  have hrun : Follows V e (fun f => OutcomeAlike (R f))
      (Rendering.onStore action) (Rendering.onStore other) := .onStore h
  refine hrun.bind fun f _ result result' houtcome => ?_
  cases houtcome with
  | ok hab => exact .pure fun g hg => hmono f g hg _ _ hab
  | error failure =>
      dsimp only
      cases failure.told with
      | ok told =>
          refine (Follows.note _ _).bind fun g _ _ _ _ => ?_
          exact .pure fun k _ => hinstead k
      | error again => exact .throw _

end Follows

/-! # Nodes -/

section Expressions

variable {V : Pairing} (sim : Simulation ρ floor V.Related) {host : Host} (hhost : host.IsPure)
  {scope : Nat} {e : Extent} (hscope : e.Opened floor scope)

include sim hhost hscope

theorem Follows.valueOf (text : String) :
    Follows V e (Value.Renamed ρ) (valueOf host scope text)
      (valueOf host (ρ.place scope) text) :=
  .recover (fun _ _ hfg _ _ hv => hv.mono hfg) text (follows_evalSource sim hhost hscope.there text)
    fun _ => .constant rfl

theorem Follows.textOf (text : String) :
    Follows V e (fun _ => Eq) (textOf host scope text)
      (textOf host (ρ.place scope) text) :=
  .recover (fun _ _ _ _ _ h => h) text (follows_textOfSource sim hhost hscope.there text)
    fun _ => rfl

end Expressions

section Bindings

variable {V : Pairing} (sim : Simulation ρ floor V.Related) {scope : Nat} {e : Extent}
  (hscope : e.Opened floor scope) {value other : Value}

theorem part_take_renamed {σ τ : Store} (h : σ.Mirrors ρ τ)
    (hv : Value.Renamed ρ σ.extent value other) (part : Part) :
    OutcomeAlike (Value.Renamed ρ σ.extent) (part.take σ value) (part.take τ other) := by
  cases part with
  | whole => exact .ok hv
  | key name => exact h.member hv (.constant (v := .str name) rfl)
  | position index =>
      have hsequence : τ.isSequence other = σ.isSequence value := by
        unfold Store.isSequence
        rcases rel_cases (h.items? hv) with ⟨ha, hb⟩ | ⟨items, others, ha, hb, _⟩
        · rw [ha, hb]
        · rw [ha, hb]
          rfl
      show OutcomeAlike _ (if σ.isSequence value then σ.member value (.int index)
          else .ok .undefined)
        (if τ.isSequence other then τ.member other (.int index) else .ok .undefined)
      rw [hsequence]
      split
      · exact h.member hv (.constant (v := .int index) rfl)
      · exact .ok (.constant rfl)

include sim hscope

theorem Follows.bindPart (hvalue : Value.Renamed ρ e value other) (name : String) (part : Part) :
    Follows V e (fun _ => Eq) (bindPart scope value name part)
      (bindPart (ρ.place scope) other name part) := by
  intro s t hst hwithin
  have htake := part_take_renamed (sim.mirrors hst.store) (hvalue.mono hwithin) part
  unfold Stencil.bindPart
  generalize part.take s.store value = found at htake
  generalize part.take t.store other = found' at htake
  cases htake with
  | error failure => exact .inr ⟨.error _, hst, .refl _⟩
  | ok hfound =>
      have hbound := sim.bind scope name _ _ hst.store (hscope.mono hwithin) hfound
      refine .inr ⟨.ok rfl, hst.withStore hbound, ?_⟩
      rw [Store.extent_bind]
      exact .refl _

theorem Follows.bindParts (hvalue : Value.Renamed ρ e value other)
    (parts : List (String × Part)) :
    Follows V e (fun _ => Eq) (bindParts scope value parts)
      (bindParts (ρ.place scope) other parts) := by
  induction parts generalizing e with
  | nil => exact .pure fun _ _ => rfl
  | cons entry rest ih =>
      refine (Follows.bindPart sim hscope hvalue _ _).bind fun f hf _ _ _ => ?_
      exact ih (hscope.mono hf) (hvalue.mono hf)

theorem Follows.child {bindings others : Entries Value} {receiver spare : Option Value}
    (hbindings : Entries.Renamed ρ e bindings others)
    (hreceiver : Option.Rel (Value.Renamed ρ e) receiver spare) :
    Follows V e
      (fun f inner inner' => f.Opened floor inner ∧ inner' = ρ.place inner)
      (Rendering.onStore fun σ => σ.child scope bindings receiver)
      (Rendering.onStore fun σ => σ.child (ρ.place scope) others spare) := by
  refine .onStore fun σ τ h hwithin => ?_
  have hplace := hscope.mono hwithin
  have hlifted : Option.Rel (Value.Renamed ρ σ.extent) receiver spare := by
    cases hreceiver with
    | none => exact .none
    | some hv => exact .some (hv.mono hwithin)
  rcases sim.child scope bindings others receiver spare h hplace (hbindings.mono hwithin) hlifted
    with ⟨hinner, hafter⟩
  have hsize : (σ.child scope bindings receiver).2.scopes.size = σ.scopes.size + 1 :=
    Array.size_push _
  refine ⟨⟨⟨?_, ?_⟩, hinner.symm⟩, hafter, ⟨?_, Nat.le_refl _, Nat.le_refl _⟩⟩
  · exact Nat.le_of_lt (Nat.lt_of_le_of_lt hplace.since hplace.there)
  · show σ.scopes.size < (σ.child scope bindings receiver).2.scopes.size
    rw [hsize]
    exact Nat.lt_succ_self _
  · show σ.scopes.size ≤ (σ.child scope bindings receiver).2.scopes.size
    rw [hsize]
    exact Nat.le_succ _

end Bindings

/-! # Loops -/

structure ElementRenamed (ρ : Renaming) (e : Extent) (element other : Option Key × Value) :
    Prop where
  key : Option.Rel (Key.Renamed ρ e) element.1 other.1
  value : Value.Renamed ρ e element.2 other.2

structure RoundRenamed (ρ : Renaming) (e : Extent) (round other : Round) : Prop where
  bindings : Entries.Renamed ρ e round.bindings other.bindings
  receiver : Value.Renamed ρ e round.receiver other.receiver

structure LoopRenamed (ρ : Renaming) (e : Extent) (loop other : Loop) : Prop where
  collection : Value.Renamed ρ e loop.collection other.collection
  same : other = { loop with collection := other.collection }

theorem RoundRenamed.mono {e f : Extent} (h : e.Within f) {round other : Round}
    (hround : RoundRenamed ρ e round other) : RoundRenamed ρ f round other :=
  ⟨hround.bindings.mono h, hround.receiver.mono h⟩

theorem LoopRenamed.mono {e f : Extent} (h : e.Within f) {loop other : Loop}
    (hloop : LoopRenamed ρ e loop other) : LoopRenamed ρ f loop other :=
  ⟨hloop.collection.mono h, hloop.same⟩

theorem key_renamed {e : Extent} {k l : Key} (h : k.Renamed ρ e l) :
    Value.Renamed ρ e (.ofKey k) (.ofKey l) := by
  rcases h with ⟨hmarked, rfl⟩
  cases k with
  | float x => exact .float hmarked
  | _ => exact .constant rfl

theorem round_renamed {e : Extent} {element other : Option Key × Value}
    (h : ElementRenamed ρ e element other) (item index : String) (count i : Nat) :
    RoundRenamed ρ e (.ofElement item index count (element, i))
      (.ofElement item index count (other, i)) := by
  rcases element with ⟨key?, value⟩
  rcases other with ⟨key?', value'⟩
  rcases h with ⟨hkey, hvalue⟩
  have hname : ∀ name : String, Key.Renamed ρ e (.str name) (.str name) := fun name =>
    Key.renamed_str ρ e name
  have hposition : Entries.Renamed ρ e
      (.ofNamed [("isFirst", .bool (i == 0)), ("isLast", .bool (i + 1 == count))])
      (.ofNamed [("isFirst", .bool (i == 0)), ("isLast", .bool (i + 1 == count))]) :=
    .cons ⟨hname _, .constant rfl⟩ (.cons ⟨hname _, .constant rfl⟩ .nil)
  refine ⟨?_, hvalue⟩
  cases hkey with
  | none => exact .cons ⟨hname _, hvalue⟩ (.cons ⟨hname _, .constant rfl⟩ hposition)
  | some hkey =>
      exact .cons ⟨hname _, hvalue⟩ (.cons ⟨hname _, .constant rfl⟩
        (.cons ⟨hname _, key_renamed hkey⟩ (.cons ⟨hname _, hvalue⟩ hposition)))

section Loops

variable {σ τ : Store} (h : σ.Mirrors ρ τ)

include h

theorem elements_renamed {value other : Value} (hv : Value.Renamed ρ σ.extent value other) :
    List.Forall₂ (ElementRenamed ρ σ.extent) (σ.elements value) (τ.elements other) := by
  have hshape := h.shape hv
  unfold Store.elements
  generalize σ.shape value = shape at hshape ⊢
  generalize τ.shape other = shape' at hshape ⊢
  cases hshape with
  | plain => exact .nil
  | list hitems =>
      rw [List.forall₂_map_left_iff, List.forall₂_map_right_iff]
      exact hitems.imp fun _ _ hitem => ⟨.none, hitem⟩
  | map hentries =>
      rw [List.forall₂_map_left_iff, List.forall₂_map_right_iff]
      exact hentries.imp fun _ _ hentry => ⟨.some hentry.1, hentry.2⟩

theorem loopRenamed_begin {value other : Value} (hv : Value.Renamed ρ σ.extent value other)
    (item index : String) :
    LoopRenamed ρ σ.extent (.begin σ item index value) (.begin τ item index other) := by
  have hcount := (elements_renamed h hv).length_eq
  have hshape := h.shape hv
  unfold Loop.begin
  rw [hcount]
  refine ⟨?_, rfl⟩
  generalize σ.shape value = shape at hshape ⊢
  generalize τ.shape other = shape' at hshape ⊢
  cases hshape with
  | plain => exact .constant rfl
  | list _ => exact hv
  | map hentries => exact .ofEntries hentries

theorem next?_renamed {loop other : Loop} (hloop : LoopRenamed ρ σ.extent loop other) :
    Option.Rel (fun next next' => RoundRenamed ρ σ.extent next.1 next'.1 ∧
      LoopRenamed ρ σ.extent next.2 next'.2) (loop.next? σ) (other.next? τ) := by
  rcases other with ⟨item, index, count, turn, collection⟩
  rcases hloop with ⟨hover, hsame⟩
  have helement := forall₂_getElem? (elements_renamed h hover) loop.turn
  cases hsame
  unfold Loop.next?
  dsimp only at hover helement ⊢
  generalize (σ.elements loop.collection)[loop.turn]? = found at helement ⊢
  generalize (τ.elements collection)[loop.turn]? = found' at helement ⊢
  cases helement with
  | none => exact .none
  | some helement => exact .some ⟨round_renamed helement _ _ _ _, hover, rfl⟩

end Loops

section Rounds

variable {V : Pairing} (sim : Simulation ρ floor V.Related) {e : Extent}

include sim

theorem Follows.begin {value other : Value} (hvalue : Value.Renamed ρ e value other)
    (item index : String) :
    Follows V e (fun f => LoopRenamed ρ f)
      (Rendering.onStore fun σ => (Loop.begin σ item index value, σ))
      (Rendering.onStore fun σ => (Loop.begin σ item index other, σ)) :=
  .onStore fun _ _ h hwithin =>
    ⟨loopRenamed_begin (sim.mirrors h) (hvalue.mono hwithin) item index, h, .refl _⟩

theorem Follows.nextRound {loop other : Loop} (hloop : LoopRenamed ρ e loop other) :
    Follows V e
      (fun f => Option.Rel fun next next' => RoundRenamed ρ f next.1 next'.1 ∧
        LoopRenamed ρ f next.2 next'.2)
      (nextRound loop) (nextRound other) :=
  .onStore fun _ _ h hwithin =>
    ⟨next?_renamed (sim.mirrors h) (hloop.mono hwithin), h, .refl _⟩

theorem Follows.renderRounds {body other : Nat → Rendering Text} {scope : Nat}
    (hscope : e.Opened floor scope)
    (hbody : ∀ f inner, e.Within f → f.Opened floor inner →
      Follows V f (fun _ => Eq) (body inner) (other (ρ.place inner)))
    (left : Nat) {loop loop' : Loop} (hloop : LoopRenamed ρ e loop loop') :
    Follows V e (fun _ => Eq) (renderRounds body scope left loop)
      (renderRounds other (ρ.place scope) left loop') := by
  induction left generalizing e loop loop' with
  | zero =>
      refine (Follows.nextRound sim hloop).bind fun f hf found found' hfound => ?_
      cases hfound with
      | none => exact .pure fun _ _ => rfl
      | some hfound => exact .throw _
  | succ left ih =>
      refine (Follows.nextRound sim hloop).bind fun f hf found found' hfound => ?_
      cases hfound with
      | none => exact .pure fun _ _ => rfl
      | some hfound =>
          rcases hfound with ⟨hround, hlater⟩
          refine (Follows.child sim (hscope.mono hf) hround.bindings
            (.some hround.receiver)).bind ?_
          rintro g hg inner _ ⟨hinner, rfl⟩
          refine (hbody g inner (hf.trans hg) hinner).bind fun k hk first _ hfirst => ?_
          cases hfirst
          have hsince := (hf.trans hg).trans hk
          have hothers := ih (hscope.mono hsince)
            (fun l inner hl => hbody l inner (hsince.trans hl))
            (hlater.mono (hg.trans hk))
          refine hothers.bind fun _ _ others _ hrest => ?_
          cases hrest
          exact .pure fun _ _ => rfl

end Rounds

/-! # Nodes -/

def renameInclusion (ρ : Renaming) (inclusion : Inclusion) : Inclusion :=
  { inclusion with scope := ρ.place inclusion.scope }

def IncludesFollow (ρ : Renaming) (floor : Nat) (V : Pairing)
    (enter other : Inclusion → Rendering Text) : Prop :=
  ∀ e : Extent, ∀ inclusion : Inclusion, e.Opened floor inclusion.scope →
    Follows V e (fun _ => Eq) (enter inclusion)
      (other (renameInclusion ρ inclusion))

section Nodes

variable {V : Pairing} {host : Host} {enter other : Inclusion → Rendering Text}

mutual

theorem Follows.renderNode (sim : Simulation ρ floor V.Related) (hhost : host.IsPure)
    (henter : IncludesFollow ρ floor V enter other) {scope : Nat} {e : Extent}
    (hscope : e.Opened floor scope) :
    (node : Node) → Follows V e (fun _ => Eq)
      (renderNode host enter scope node) (renderNode host other (ρ.place scope) node)
  | .text _ _ => by
      rw [Stencil.renderNode, Stencil.renderNode]
      exact .pure fun _ _ => rfl
  | .interpolation _ text => by
      rw [Stencil.renderNode, Stencil.renderNode]
      refine (Follows.textOf sim hhost hscope text).bind fun _ _ found _ hfound => ?_
      cases hfound
      exact .pure fun _ _ => rfl
  | .shorthand _ path => by
      rw [Stencil.renderNode, Stencil.renderNode]
      refine (Follows.textOf sim hhost hscope path).bind fun _ _ found _ hfound => ?_
      cases hfound
      exact .pure fun _ _ => rfl
  | .declaration _ pattern text => by
      rw [Stencil.renderNode, Stencil.renderNode]
      refine (Follows.valueOf sim hhost hscope text).bind fun f hf value value' hvalue => ?_
      have hinner := hscope.mono hf
      refine (Follows.bindParts sim hinner hvalue _).bind fun _ _ _ _ _ => ?_
      exact .pure fun _ _ => rfl
  | .conditional _ branches none => by
      rw [Stencil.renderNode, Stencil.renderNode]
      refine (Follows.renderBranches sim hhost henter hscope branches).bind
        fun _ _ chosen _ hchosen => ?_
      cases hchosen
      cases chosen <;> exact .pure fun _ _ => rfl
  | .conditional _ branches (some body) => by
      rw [Stencil.renderNode, Stencil.renderNode]
      refine (Follows.renderBranches sim hhost henter hscope branches).bind
        fun f hf chosen _ hchosen => ?_
      cases hchosen
      cases chosen with
      | some text => exact .pure fun _ _ => rfl
      | none => exact Follows.renderAll sim hhost henter (hscope.mono hf) body
  | .loop _ item index text body => by
      rw [Stencil.renderNode, Stencil.renderNode]
      refine (Follows.valueOf sim hhost hscope text).bind fun f hf value value' hvalue => ?_
      refine (Follows.begin sim hvalue item index).bind fun g hg loop loop' hloop => ?_
      rw [hloop.same]
      exact .renderRounds sim (hscope.mono (hf.trans hg))
        (fun k inner _ hplace => Follows.renderAll sim hhost henter hplace body) _
        ⟨hloop.collection, rfl⟩
  | .inclusion line path data => by
      rw [Stencil.renderNode, Stencil.renderNode]
      exact henter e ⟨line, path, data, scope⟩ hscope

theorem Follows.renderAll (sim : Simulation ρ floor V.Related) (hhost : host.IsPure)
    (henter : IncludesFollow ρ floor V enter other) {scope : Nat} {e : Extent}
    (hscope : e.Opened floor scope) :
    (nodes : List Node) → Follows V e (fun _ => Eq)
      (renderAll host enter scope nodes) (renderAll host other (ρ.place scope) nodes)
  | [] => by
      rw [Stencil.renderAll, Stencil.renderAll]
      exact .pure fun _ _ => rfl
  | node :: rest => by
      rw [Stencil.renderAll, Stencil.renderAll]
      refine (Follows.renderNode sim hhost henter hscope node).bind fun f hf first _ hfirst => ?_
      cases hfirst
      have hinner := hscope.mono hf
      refine (Follows.renderAll sim hhost henter hinner rest).bind fun _ _ others _ hothers => ?_
      cases hothers
      exact .pure fun _ _ => rfl

theorem Follows.renderBranches (sim : Simulation ρ floor V.Related) (hhost : host.IsPure)
    (henter : IncludesFollow ρ floor V enter other) {scope : Nat} {e : Extent}
    (hscope : e.Opened floor scope) :
    (branches : List (Branch Node)) →
      Follows V e (fun _ => Eq) (renderBranches host enter scope branches)
        (renderBranches host other (ρ.place scope) branches)
  | [] => by
      rw [Stencil.renderBranches, Stencil.renderBranches]
      exact .pure fun _ _ => rfl
  | branch :: rest => by
      rw [Stencil.renderBranches, Stencil.renderBranches]
      refine (Follows.valueOf sim hhost hscope branch.condition).bind
        fun f hf value value' hvalue => ?_
      have hinner := hscope.mono hf
      rw [hvalue.truthy_eq]
      split
      · refine (Follows.renderAll sim hhost henter hinner branch.body).bind
          fun _ _ text _ htext => ?_
        cases htext
        exact .pure fun _ _ => rfl
      · exact Follows.renderBranches sim hhost henter hinner rest

end

end Nodes

/-! # Includes -/

/--
Sites with room for so many includes that may be compared: the same, or a second one with less room
and more views under way, if it is excused to stop there.
-/
inductive Site.Narrows (excused : Trouble → Prop) : Nat → Site → Nat → Site → Prop where
  | same (left : Nat) (site : Site) : Narrows excused left site left site
  | cut {left less : Nat} {site other : Site} :
      (∀ site inclusion path, excused (.view (cycleError site inclusion path))) →
      less ≤ left → other.view = site.view → site.stack ⊆ other.stack →
      Narrows excused left site less other

theorem Site.Narrows.view_eq {excused : Trouble → Prop} {left less : Nat} {site other : Site}
    (h : Site.Narrows excused left site less other) : other.view = site.view := by
  cases h with
  | same => rfl
  | cut _ _ hview _ => exact hview

theorem Site.Narrows.subset {excused : Trouble → Prop} {left less : Nat} {site other : Site}
    (h : Site.Narrows excused left site less other) : site.stack ⊆ other.stack := by
  cases h with
  | same => exact List.Subset.refl _
  | cut _ _ _ hstack => exact hstack

theorem Site.Narrows.le {excused : Trouble → Prop} {left less : Nat} {site other : Site}
    (h : Site.Narrows excused left site less other) : less ≤ left := by
  cases h with
  | same => exact Nat.le_refl _
  | cut _ hless _ _ => exact hless

theorem Site.Narrows.enter {excused : Trouble → Prop} {left less : Nat} {site other : Site}
    (h : Site.Narrows excused (left + 1) site (less + 1) other) (path : Text) :
    Site.Narrows excused left (site.enter path) less (other.enter path) := by
  cases h with
  | same => exact .same left (site.enter path)
  | cut hexcused hless _ hstack =>
      refine .cut hexcused (Nat.le_of_succ_le_succ hless) rfl ?_
      exact List.append_subset.mpr ⟨fun name hname => List.mem_append_left _ (hstack hname),
        List.subset_append_right _ _⟩

section Includes

variable {V : Pairing} (sim : Simulation ρ floor V.Related) {e : Extent} {inclusion : Inclusion}
  (hscope : e.Opened floor inclusion.scope)

include sim hscope in
theorem Follows.includeData {host : Host} (hhost : host.IsPure) :
    Follows V e (Entries.Renamed ρ) (includeData host inclusion)
      (includeData host (renameInclusion ρ inclusion)) := by
  unfold Stencil.includeData
  cases hdata : inclusion.data with
  | none =>
      simp only [renameInclusion, hdata]
      exact .pure fun _ _ => .nil
  | some text =>
      simp only [renameInclusion, hdata]
      refine (Follows.valueOf sim hhost hscope text).bind fun f hf value value' hvalue => ?_
      refine .read fun s t hst hwithin => ?_
      rcases rel_cases ((sim.mirrors hst.store).entries? (hvalue.mono hwithin)) with
        ⟨ha, hb⟩ | ⟨entries, others, ha, hb, hentries⟩
      · rw [ha, hb]
        exact (Follows.note _ _).bind fun _ _ _ _ _ => .pure fun _ _ => .nil
      · rw [ha, hb]
        exact .pure fun _ hg => hentries.mono hg

variable {setup : RenderSetup} (hsource : V.source = setup.source) (hhost : setup.host.IsPure)
  {site other : Site} (hview : other.view = site.view)

include sim hhost hview hscope in
theorem Follows.includeTarget :
    Follows V e
      (fun f => Option.Rel fun found found' =>
        found.1 = found'.1 ∧ Entries.Renamed ρ f found.2 found'.2)
      (includeTarget setup site inclusion)
      (includeTarget setup other (renameInclusion ρ inclusion)) := by
  refine (Follows.includeData sim hscope hhost).bind fun f hf data data' hdata => ?_
  dsimp only [renameInclusion]
  rw [hview]
  cases ViewPath.resolve setup.source.viewsType inclusion.path site.view with
  | ok path => exact .pure fun g hg => .some ⟨rfl, hdata.mono hg⟩
  | error failure => exact (Follows.note _ _).bind fun _ _ _ _ _ => .pure fun _ _ => .none

include hsource in
theorem Follows.includeNodes (path : Text) :
    Follows V e (fun _ => Eq) (includeNodes setup site inclusion path)
      (includeNodes setup other (renameInclusion ρ inclusion) path) := by
  refine (Follows.note _ _).bind fun _ _ _ _ _ => ?_
  rw [← hsource]
  refine (Follows.attemptFetch path).bind fun _ _ result _ hresult => ?_
  cases hresult
  split
  · exact .pure fun _ _ => rfl
  · split
    · exact (Follows.note _ _).bind fun _ _ _ _ _ => .pure fun _ _ => rfl
    · exact .throw _
  · exact .throw _

end Includes

section Cycles

variable {V : Pairing} {e : Extent} {α β : Type} {R : Extent → α → β → Prop} (site : Site)
  (inclusion : Inclusion) (path : Text)

theorem Follows.rejectCycle :
    Follows V e R (rejectCycle site inclusion path)
      (rejectCycle site (renameInclusion ρ inclusion) path) :=
  (Follows.note _ _).bind fun _ _ _ _ _ => .throw _

theorem Follows.stopped (hexcused : V.excused (.view (cycleError site inclusion path)))
    (action : Rendering α) : Follows V e R action (Stencil.rejectCycle site inclusion path) :=
  fun _ _ _ _ => .inl ⟨_, hexcused, rfl⟩

end Cycles

theorem includesFollow_renderInclude {V : Pairing} (sim : Simulation ρ floor V.Related)
    {setup : RenderSetup} (hsource : V.source = setup.source) (hhost : setup.host.IsPure)
    (less : Nat) {left : Nat} {site other : Site}
    (hsites : Site.Narrows V.excused left site less other) :
    IncludesFollow ρ floor V (renderInclude setup left site) (renderInclude setup less other) := by
  induction less generalizing left site other with
  | zero =>
      intro e inclusion hscope
      have htargets := Follows.includeTarget sim hscope hhost hsites.view_eq
      -- The first render is stopped here as well, or the second is excused.
      cases hsites with
      | same =>
          refine htargets.bind fun f hf found found' hfound => ?_
          cases hfound with
          | none => exact .pure fun _ _ => rfl
          | @some found found' htarget =>
              rcases found with ⟨path, data⟩
              rcases found' with ⟨path', data'⟩
              rcases htarget with ⟨hpath, hdata⟩
              simp only at hpath
              subst hpath
              exact .rejectCycle _ inclusion path
      | cut hexcused _ _ _ =>
          cases left <;>
          · refine htargets.bind fun f hf found found' hfound => ?_
            cases hfound with
            | none => exact .pure fun _ _ => rfl
            | some htarget => exact .stopped _ _ _ (hexcused _ _ _) _
  | succ less ih =>
      intro e inclusion hscope
      have hroom : 0 < left := Nat.lt_of_lt_of_le (Nat.succ_pos less) hsites.le
      obtain ⟨left, rfl⟩ := Nat.exists_eq_add_one.mpr hroom
      have htargets := Follows.includeTarget sim hscope hhost hsites.view_eq
      refine htargets.bind fun f hf found found' hfound => ?_
      cases hfound with
      | none => exact .pure fun _ _ => rfl
      | @some found found' htarget =>
          rcases found with ⟨path, data⟩
          rcases found' with ⟨path', data'⟩
          rcases htarget with ⟨hpath, hdata⟩
          simp only at hpath hdata
          subst hpath
          dsimp only
          by_cases hstopped : other.stack.contains path = true
          · rw [if_pos hstopped]
            cases hsites with
            | same =>
                rw [if_pos hstopped]
                exact .rejectCycle _ inclusion path
            | cut hexcused _ _ _ => exact .stopped _ _ _ (hexcused _ _ _) _
          have hgoes : ¬site.stack.contains path = true := by
            intro hcontains
            exact hstopped (List.contains_iff_mem.mpr
              (hsites.subset (List.contains_iff_mem.mp hcontains)))
          rw [if_neg hstopped, if_neg hgoes]
          refine (Follows.includeNodes hsource path).bind fun g hg nodes _ hnodes => ?_
          cases hnodes
          cases nodes with
          | none => exact .pure fun _ _ => rfl
          | some nodes =>
              refine (Follows.addInclude path).bind fun k hk _ _ _ => ?_
              have hlater := (hf.trans hg).trans hk
              have hbindings := hdata.mono (hg.trans hk)
              refine (Follows.child sim (hscope.mono hlater) hbindings .none).bind ?_
              rintro l _ inner _ ⟨hinner, rfl⟩
              exact Follows.renderAll sim hhost (ih (hsites.enter path)) hinner nodes

end Rendering
end Stencil
