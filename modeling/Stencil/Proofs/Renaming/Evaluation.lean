import Stencil.Proofs.Render.Frames
import Stencil.Proofs.Renaming.Reading
import Stencil.Proofs.Renaming.Texts

/-!
# Evaluation in mirrored stores

An expression that is evaluated in a store and in one that mirrors it comes to renamed values, or
fails in the same way. This is proved for any relation between stores that implies mirroring and
that is kept by what evaluations and renders do to stores. Of the functions of the host
application it is assumed that they are pure.
-/

namespace Stencil

variable {ρ : Renaming} {floor : Nat}

/-! # Hosts -/

/--
A host whose functions change nothing, and whose answers depend on nothing but what can be seen of
the arguments and of the scope, not on how scopes and marks are numbered.
-/
structure Host.IsPure (host : Host) : Prop where
  changesNothing : host.ChangesNothing
  answers : ∀ (ρ : Renaming) (σ τ : Store) (scope : Option Nat) (name : String)
    (args others : List Value), σ.Mirrors ρ τ → (∀ place ∈ scope, place < σ.scopes.size) →
    List.Forall₂ (Value.Renamed ρ σ.extent) args others →
    OutcomeAlike (Value.Renamed ρ σ.extent) (host.run σ scope name args).result
      (host.run τ (scope.map ρ.place) name others).result

/-! # Built-in helpers -/

theorem OutcomeAlike.ofText {e : Extent} {result other : Except Failure Text}
    (h : other = result) (f : Text → Text) :
    OutcomeAlike (Value.Renamed ρ e) (result.map fun s => .str (f s))
      (other.map fun s => .str (f s)) := by
  rw [h]
  cases result with
  | ok s => exact .ok (.constant rfl)
  | error failure => exact .error failure

namespace Builtin

section Helpers

variable {σ τ : Store} (h : σ.Mirrors ρ τ) {v w : Value}
  (hv : Value.Renamed ρ σ.extent v w)

include h hv

theorem lengthOf_renamed :
    OutcomeAlike (Value.Renamed ρ σ.extent) (lengthOf σ v) (lengthOf τ w) := by
  have hshape := h.shape hv
  rw [lengthOf_def, lengthOf_def, hv.text?_eq, h.typeName_eq hv]
  generalize σ.shape v = s at hshape ⊢
  generalize τ.shape w = t at hshape ⊢
  cases v.text? with
  | some text => exact .ok (.constant rfl)
  | none =>
      cases hshape with
      | list hitems =>
          simp only [hitems.length_eq]
          exact .ok (.constant rfl)
      | map hentries =>
          simp only [hentries.length_eq]
          exact .ok (.constant rfl)
      | plain => exact .error _

theorem mapText_renamed (f : Text → Text) :
    OutcomeAlike (Value.Renamed ρ σ.extent) (mapText σ f v) (mapText τ f w) := by
  apply OutcomeAlike.ofText
  rw [textOrEmpty, textOrEmpty, h.outputText_eq hv]

theorem parseValue_renamed :
    OutcomeAlike (Value.Renamed ρ σ.extent) (parseValue σ v) (parseValue τ w) := by
  rw [parseValue_def, parseValue_def, hv.text?_eq, h.typeName_eq hv]
  cases v.text? with
  | none => exact .error _
  | some s =>
      dsimp only
      cases hread : Json.read? s with
      | none => exact .error _
      | some d => exact .ok (Json.isFixed_of_read? hread ρ σ.extent)

theorem stringifyValue_renamed {space space' : Value}
    (hspace : Value.Renamed ρ σ.extent space space') :
    OutcomeAlike (Value.Renamed ρ σ.extent) (stringifyValue σ v space)
      (stringifyValue τ w space') := by
  have hindent : indentStep space' = indentStep space := by
    cases hspace with
    | @float x => cases x <;> rfl
    | _ => rfl
  have hjson : ∀ style, τ.jsonText style w = σ.jsonText style v := by
    intro style
    exact h.jsonText_eq style hv
  simp only [stringifyValue, hv.isUndefined_eq, hv.isCallable_eq, hindent]
  split
  · exact .ok (.constant rfl)
  · cases indentStep space with
    | error failure => exact .error failure
    | ok indent => exact .ofText (hjson (styleFor indent)) id

end Helpers

theorem run_renamed {σ τ : Store} (h : σ.Mirrors ρ τ) (function : Builtin)
    {args others : List Value} (hargs : List.Forall₂ (Value.Renamed ρ σ.extent) args others) :
    OutcomeAlike (Value.Renamed ρ σ.extent) (function.run σ args) (function.run τ others) := by
  cases hargs with
  | nil => cases function <;> exact .error _
  | cons hv hrest =>
      cases hrest with
      | nil =>
          cases function with
          | json => exact .ofText (h.jsonText_eq .compact hv) id
          | length => exact lengthOf_renamed h hv
          | default => exact .error _
          | upper => exact mapText_renamed h hv _
          | lower => exact mapText_renamed h hv _
          | escape => exact mapText_renamed h hv _
          | stringify => exact stringifyValue_renamed h hv (.constant rfl)
          | parse => exact parseValue_renamed h hv
      | cons hw hmore =>
          cases hmore with
          | nil =>
              cases function with
              | default =>
                  simp only [run, hv.isNullish_eq]
                  split
                  · exact .ok hw
                  · exact .ok hv
              | stringify => exact stringifyValue_renamed h hv (.constant rfl)
              | _ => exact .error _
          | cons hspace hfurther =>
              cases hfurther with
              | nil =>
                  cases function with
                  | stringify => exact stringifyValue_renamed h hv hspace
                  | _ => exact .error _
              | cons => cases function <;> exact .error _

end Builtin

/-! # Simulations -/

structure Extent.Opened (e : Extent) (floor scope : Nat) : Prop where
  since : floor ≤ scope
  there : scope < e.scopes

theorem Extent.Opened.mono {e f : Extent} {floor scope : Nat} (h : e.Opened floor scope)
    (hwithin : e.Within f) : f.Opened floor scope :=
  ⟨h.since, Nat.lt_of_lt_of_le h.there hwithin.scopes⟩

/--
A relation between stores that implies mirroring and is kept by evaluations and renders, as far as
these write to the scopes from some place on.
-/
structure Simulation (ρ : Renaming) (floor : Nat) (Related : Store → Store → Prop) : Prop where
  mirrors : ∀ {σ τ}, Related σ τ → σ.Mirrors ρ τ
  mark : ∀ {σ τ}, Related σ τ →
    Related { σ with nextMark := σ.nextMark + 1 } { τ with nextMark := τ.nextMark + 1 }
  record : ∀ {σ τ} call other, Related σ τ → Related (σ.record call) (τ.record other)
  child : ∀ {σ τ} place bindings others receiver other, Related σ τ →
    σ.extent.Opened floor place → Entries.Renamed ρ σ.extent bindings others →
    Option.Rel (Value.Renamed ρ σ.extent) receiver other →
    ρ.place (σ.child place bindings receiver).1 =
        (τ.child (ρ.place place) others other).1 ∧
      Related (σ.child place bindings receiver).2 (τ.child (ρ.place place) others other).2
  bind : ∀ {σ τ} place key value other, Related σ τ → σ.extent.Opened floor place →
    Value.Renamed ρ σ.extent value other →
    Related (σ.bind place (.str key) value) (τ.bind (ρ.place place) (.str key) other)

section Follows

variable {Related : Store → Store → Prop} {α β γ δ : Type} {e : Extent}

/--
Computations with related outcomes, which leave related stores related. What outcomes are related
may depend on what has been given out by then.
-/
def Evaluation.Follows (Related : Store → Store → Prop) (e : Extent)
    (R : Extent → α → β → Prop) (action : Evaluation α) (other : Evaluation β) : Prop :=
  ∀ σ τ : Store, Related σ τ → e.Within σ.extent →
    OutcomeAlike (R (action σ).2.extent) (action σ).1 (other τ).1 ∧
      Related (action σ).2 (other τ).2 ∧ σ.extent.Within (action σ).2.extent

namespace Evaluation

theorem Follows.reads {R : Extent → α → β → Prop} {f : Store → Except Failure α}
    {g : Store → Except Failure β}
    (h : ∀ σ τ, Related σ τ → e.Within σ.extent → OutcomeAlike (R σ.extent) (f σ) (g τ)) :
    Follows Related e R (fun σ => (f σ, σ)) (fun τ => (g τ, τ)) :=
  fun σ τ hστ hwithin => ⟨h σ τ hστ hwithin, hστ, .refl _⟩

theorem Follows.pure {R : Extent → α → β → Prop} {a : α} {b : β}
    (h : ∀ f, e.Within f → R f a b) :
    Follows Related e R (Pure.pure a : Evaluation α) (Pure.pure b : Evaluation β) :=
  .reads fun σ _ _ hwithin => .ok (h σ.extent hwithin)

theorem Follows.bind {R : Extent → α → β → Prop} {S : Extent → γ → δ → Prop}
    {action : Evaluation α} {other : Evaluation β} {next : α → Evaluation γ}
    {further : β → Evaluation δ} (h : Follows Related e R action other)
    (hnext : ∀ f, e.Within f → ∀ a b, R f a b → Follows Related f S (next a) (further b)) :
    Follows Related e S (action >>= next) (other >>= further) := by
  intro σ τ hστ hwithin
  rcases h σ τ hστ hwithin with ⟨houtcome, hafter, hgrown⟩
  rw [bind_def, bind_def]
  generalize action σ = first at houtcome hafter hgrown ⊢
  generalize other τ = second at houtcome hafter ⊢
  rcases first with ⟨result, σ'⟩
  rcases second with ⟨result', τ'⟩
  cases houtcome with
  | error failure => exact ⟨.error failure, hafter, hgrown⟩
  | ok hab =>
      rcases hnext σ'.extent (hwithin.trans hgrown) _ _ hab σ' τ' hafter (.refl _) with
        ⟨hlast, hlastAfter, hlastGrown⟩
      exact ⟨hlast, hlastAfter, hgrown.trans hlastGrown⟩

end Evaluation

end Follows

/-! # Operators -/

section Operators

variable {Related : Store → Store → Prop} (sim : Simulation ρ floor Related) {e : Extent}

include sim

open Evaluation (Follows)

theorem follows_keep (result : Number) :
    Follows Related e (Value.Renamed ρ) (Evaluation.keep result) (Evaluation.keep result) := by
  intro σ τ h _
  have hplain : ∀ v : Value, v.isConstant = true →
      OutcomeAlike (Value.Renamed ρ σ.extent) (.ok v) (.ok v) ∧ Related σ τ ∧
        σ.extent.Within σ.extent :=
    fun v hv => ⟨.ok (.constant hv), h, .refl _⟩
  cases result with
  | int n => exact hplain _ rfl
  | float x =>
      have hfloat : x.Unmarked → OutcomeAlike (Value.Renamed ρ σ.extent) (.ok (.float x))
          (.ok (.float x)) ∧ Related σ τ ∧ σ.extent.Within σ.extent :=
        fun hx => ⟨.ok (hx.renamed ρ _), h, .refl _⟩
      cases x with
      | infinity negative => exact hfloat trivial
      | finite negative rank => exact hfloat trivial
      | nan mark =>
          have hmark : ρ.mark σ.nextMark = τ.nextMark := (sim.mirrors h).mark_eq 0
          have hfresh : Value.Renamed ρ { σ with nextMark := σ.nextMark + 1 }.extent
              (.float (.nan σ.nextMark)) (.float (.nan τ.nextMark)) := by
            rw [← hmark]
            exact .float (x := .nan σ.nextMark) (.inr (Nat.lt_succ_self _))
          exact ⟨.ok hfresh, sim.mark h,
            ⟨Nat.le_refl _, Nat.le_refl _, Nat.le_succ _⟩⟩

omit sim in
theorem concatenate_renamed {σ τ : Store} (h : σ.Mirrors ρ τ) {v v' w w' : Value}
    (hv : Value.Renamed ρ σ.extent v v') (hw : Value.Renamed ρ σ.extent w w') :
    OutcomeAlike (Value.Renamed ρ σ.extent) (concatenate σ v w) (concatenate τ v' w') := by
  rw [concatenate, concatenate, h.outputText_eq hv, h.outputText_eq hw]
  cases σ.outputText v with
  | error failure => exact .error failure
  | ok left =>
      cases σ.outputText w with
      | error failure => exact .error failure
      | ok right =>
          cases left with
          | none => exact .error _
          | some s =>
              cases right with
              | none => exact .error _
              | some t => exact .ok (.constant rfl)

omit sim in
theorem arithmeticValue_renamed {σ τ : Store} (h : σ.Mirrors ρ τ) (op : ArithmeticOp)
    {v v' w w' : Value} (hv : Value.Renamed ρ σ.extent v v')
    (hw : Value.Renamed ρ σ.extent w w') :
    arithmeticValue τ op v' w' = arithmeticValue σ op v w := by
  rw [arithmeticValue, arithmeticValue, hv.number?_eq, hw.number?_eq, h.typeName_eq hv,
    h.typeName_eq hw]
  cases v.number? <;> cases w.number? <;> simp

section Operands

variable {v v' w w' : Value} (hv : Value.Renamed ρ e v v') (hw : Value.Renamed ρ e w w')

include hv hw

theorem follows_arithmetic (op : ArithmeticOp) :
    Follows Related e (Value.Renamed ρ) (evalArithmetic op v w) (evalArithmetic op v' w') := by
  intro σ τ h hwithin
  have hleft := hv.mono hwithin
  have hright := hw.mono hwithin
  have hmirrors := sim.mirrors h
  unfold evalArithmetic
  simp only [hv.isUndefined_eq, hw.isUndefined_eq, hv.isStr_eq, hw.isStr_eq,
    arithmeticValue_renamed hmirrors op hleft hright]
  split
  · exact ⟨.ok (.constant rfl), h, .refl _⟩
  · split
    · exact ⟨concatenate_renamed hmirrors hleft hright, h, .refl _⟩
    · split
      · exact follows_keep sim _ σ τ h (.refl _)
      · exact ⟨.error _, h, .refl _⟩

theorem follows_binary (op : BinaryOp) :
    Follows Related e (Value.Renamed ρ) (evalBinary op v w) (evalBinary op v' w') := by
  have htest : ∀ (f : Store → Value → Value → Except Failure Bool) (g : Bool → Bool),
      (∀ σ τ, Related σ τ → e.Within σ.extent → f σ v w = f τ v' w') →
      Follows Related e (Value.Renamed ρ) (fun σ => ((f σ v w).map fun b => .bool (g b), σ))
        (fun σ => ((f σ v' w').map fun b => .bool (g b), σ)) := by
    intro f g hsame
    refine .reads fun σ τ h hwithin => ?_
    rw [hsame σ τ h hwithin]
    cases f τ v' w' with
    | ok b => exact .ok (.constant rfl)
    | error failure => exact .error failure
  have hloose : ∀ σ τ, Related σ τ → e.Within σ.extent →
      σ.looseEqual v w = τ.looseEqual v' w' := fun σ τ h hwithin =>
    (sim.mirrors h).looseEqual_eq (hv.mono hwithin) (hw.mono hwithin)
  have hstrict : ∀ σ τ, Related σ τ → e.Within σ.extent →
      σ.strictEqual v w = τ.strictEqual v' w' := fun σ τ h hwithin =>
    (sim.mirrors h).strictEqual_eq (hv.mono hwithin) (hw.mono hwithin)
  cases op with
  | arithmetic op => exact follows_arithmetic sim hv hw op
  | comparison op =>
      exact htest (fun σ => σ.compareValues op) id fun σ τ h hwithin =>
        (sim.mirrors h).compareValues_eq op (hv.mono hwithin) (hw.mono hwithin)
  | looseEqual => exact htest Store.looseEqual id hloose
  | looseUnequal => exact htest Store.looseEqual not hloose
  | strictEqual => exact htest Store.strictEqual id hstrict
  | strictUnequal => exact htest Store.strictEqual not hstrict

omit hw in
theorem follows_unary (op : UnaryOp) :
    Follows Related e (Value.Renamed ρ) (evalUnary op v) (evalUnary op v') := by
  intro σ τ h hwithin
  have hoperand := hv.mono hwithin
  unfold evalUnary
  rw [hv.isUndefined_eq, hv.truthy_eq, hv.number?_eq, (sim.mirrors h).typeName_eq hoperand]
  cases op with
  | not => exact ⟨.ok (.constant rfl), h, .refl _⟩
  | minus =>
      dsimp only
      split
      · exact ⟨.ok (.constant rfl), h, .refl _⟩
      · cases v.number? with
        | none => exact ⟨.error _, h, .refl _⟩
        | some x =>
            simp only [Option.map_some, Number.negate_rename]
            exact follows_keep sim _ σ τ h (.refl _)
  | plus =>
      dsimp only
      split
      · exact ⟨.ok (.constant rfl), h, .refl _⟩
      · cases hnumber : v.number? with
        | none => exact ⟨.error _, h, .refl _⟩
        | some x => exact ⟨.ok (hoperand.ofNumber hnumber), h, .refl _⟩

end Operands

/-! # Calls -/

section Calls

variable {host : Host} (hhost : host.IsPure) {scope : Nat} (hscope : scope < e.scopes)

include hhost hscope

theorem follows_apply (f : Callable) {args others : List Value}
    (hargs : List.Forall₂ (Value.Renamed ρ e) args others) :
    Follows Related e (Value.Renamed ρ) (f.apply host scope args)
      (f.apply host (ρ.place scope) others) := by
  intro σ τ h hwithin
  have hafter := sim.record ⟨f, args⟩ ⟨f, others⟩ h
  have hlifted := hargs.imp fun _ _ hv => Value.Renamed.mono hwithin hv
  have hplace : scope < σ.scopes.size := Nat.lt_of_lt_of_le hscope hwithin.scopes
  cases f with
  | builtin function =>
      exact ⟨Builtin.run_renamed (sim.mirrors h) function hlifted, hafter, .refl _⟩
  | host name takesScope =>
      have hreply := hhost.answers ρ σ τ (if takesScope then some scope else none) name args others
        (sim.mirrors h)
      rw [Callable.apply_of_changesNothing hhost.changesNothing,
        Callable.apply_of_changesNothing hhost.changesNothing]
      refine ⟨?_, hafter, .refl _⟩
      cases takesScope with
      | false => exact hreply (fun _ hp => absurd hp (Option.not_mem_none _)) hlifted
      | true =>
          refine hreply ?_ hlifted
          rintro place ⟨⟩
          exact hplace

theorem follows_call {v w : Value} (hv : Value.Renamed ρ e v w) {args others : List Value}
    (hargs : List.Forall₂ (Value.Renamed ρ e) args others) :
    Follows Related e (Value.Renamed ρ) (v.call host scope args)
      (w.call host (ρ.place scope) others) := by
  cases hcallable : v.isCallable with
  | true =>
      cases v with
      | callable f =>
          rw [hv.eq_of_isConstant rfl]
          exact follows_apply sim hhost hscope f hargs
      | _ => cases hcallable
  | false =>
      intro σ τ h hwithin
      rw [call_def host scope hcallable,
        call_def host (ρ.place scope) (hv.isCallable_eq ▸ hcallable),
        (sim.mirrors h).shownCallee_eq (hv.mono hwithin)]
      cases σ.shownCallee v with
      | ok shown => exact ⟨.error _, h, .refl _⟩
      | error failure => exact ⟨.error _, h, .refl _⟩

end Calls

end Operators

/-! # Expressions -/

mutual

theorem follows_eval {Related : Store → Store → Prop} (sim : Simulation ρ floor Related)
    {host : Host} (hhost : host.IsPure) {scope : Nat} {e : Extent} (hscope : scope < e.scopes) :
    (tree : Expr) → tree.Unmarked →
      Evaluation.Follows Related e (Value.Renamed ρ) (tree.eval host scope)
        (tree.eval host (ρ.place scope))
  | .literal value, hvalue => .pure fun f _ => hvalue.renamed ρ f
  | .name name, _ => .reads fun _ _ h hwithin =>
      .ok ((sim.mirrors h).lookup (Nat.lt_of_lt_of_le hscope hwithin.scopes) name)
  | .this, _ => .reads fun _ _ h hwithin =>
      .ok ((sim.mirrors h).receiver scope (Nat.lt_of_lt_of_le hscope hwithin.scopes))
  | .member target key, ⟨htarget, hkey⟩ => by
      have hkeys := follows_eval sim hhost hscope key hkey
      have htargets := fun {f : Extent} (hf : scope < f.scopes) =>
        follows_eval sim hhost hf target htarget
      cases target with
      | this =>
          refine hkeys.bind fun f hf k k' hk => .reads fun σ τ h hwithin => ?_
          have hplace := Nat.lt_of_lt_of_le hscope (hf.trans hwithin).scopes
          exact (sim.mirrors h).receiverMember hplace (hk.mono hwithin)
      | _ =>
          refine hkeys.bind fun f hf k k' hk => ?_
          refine (htargets (Nat.lt_of_lt_of_le hscope hf.scopes)).bind fun g hg v v' hv => ?_
          refine .reads fun σ τ h hwithin => ?_
          exact (sim.mirrors h).member (hv.mono hwithin) (hk.mono (hg.trans hwithin))
  | .call callee args, ⟨hcallee, hargs⟩ => by
      refine (follows_eval sim hhost hscope callee hcallee).bind fun f hf v v' hv => ?_
      have hinner := Nat.lt_of_lt_of_le hscope hf.scopes
      refine (follows_evalList sim hhost hinner args hargs).bind fun g hg vs vs' hvs => ?_
      exact follows_call sim hhost (Nat.lt_of_lt_of_le hinner hg.scopes) (hv.mono hg) hvs
  | .unary op operand, hoperand =>
      (follows_eval sim hhost hscope operand hoperand).bind fun _ _ _ _ hv =>
        follows_unary sim hv op
  | .binary op left right, ⟨hleft, hright⟩ => by
      refine (follows_eval sim hhost hscope left hleft).bind fun f hf v v' hv => ?_
      have hinner := Nat.lt_of_lt_of_le hscope hf.scopes
      refine (follows_eval sim hhost hinner right hright).bind fun g hg w w' hw => ?_
      exact follows_binary sim (hv.mono hg) hw op
  | .logical .and left right, ⟨hleft, hright⟩ => by
      refine (follows_eval sim hhost hscope left hleft).bind fun f hf v v' hv => ?_
      rw [hv.truthy_eq]
      split
      · exact follows_eval sim hhost (Nat.lt_of_lt_of_le hscope hf.scopes) right hright
      · exact .pure fun g hg => hv.mono hg
  | .logical .or left right, ⟨hleft, hright⟩ => by
      refine (follows_eval sim hhost hscope left hleft).bind fun f hf v v' hv => ?_
      rw [hv.truthy_eq]
      split
      · exact .pure fun g hg => hv.mono hg
      · exact follows_eval sim hhost (Nat.lt_of_lt_of_le hscope hf.scopes) right hright
  | .conditional test yes no, ⟨htest, hyes, hno⟩ => by
      refine (follows_eval sim hhost hscope test htest).bind fun f hf v v' hv => ?_
      have hinner := Nat.lt_of_lt_of_le hscope hf.scopes
      rw [hv.truthy_eq]
      split
      · exact follows_eval sim hhost hinner yes hyes
      · exact follows_eval sim hhost hinner no hno
  | .array items, hitems =>
      (follows_evalList sim hhost hscope items hitems).bind fun _ _ _ _ hvs =>
        .pure fun _ hg => .ofItems (hvs.imp fun _ _ hv => hv.mono hg)
  | .object entries, hentries =>
      (follows_evalEntries sim hhost hscope entries hentries).bind fun _ _ _ _ hvs =>
        .pure fun _ hg => .ofEntries (hvs.mono hg).ofPairs

theorem follows_evalList {Related : Store → Store → Prop} (sim : Simulation ρ floor Related)
    {host : Host} (hhost : host.IsPure) {scope : Nat} {e : Extent} (hscope : scope < e.scopes) :
    (trees : List Expr) → Expr.UnmarkedList trees →
      Evaluation.Follows Related e (fun f => List.Forall₂ (Value.Renamed ρ f))
        (evalList host scope trees) (evalList host (ρ.place scope) trees)
  | [], _ => .pure fun _ _ => .nil
  | tree :: rest, ⟨htree, hrest⟩ => by
      refine (follows_eval sim hhost hscope tree htree).bind fun f hf v v' hv => ?_
      have hinner := Nat.lt_of_lt_of_le hscope hf.scopes
      refine (follows_evalList sim hhost hinner rest hrest).bind fun g hg vs vs' hvs => ?_
      exact .pure fun k hk => .cons (hv.mono (hg.trans hk)) (hvs.imp fun _ _ hv => hv.mono hk)

theorem follows_evalEntries {Related : Store → Store → Prop} (sim : Simulation ρ floor Related)
    {host : Host} (hhost : host.IsPure) {scope : Nat} {e : Extent} (hscope : scope < e.scopes) :
    (entries : List (Text × Expr)) → Expr.UnmarkedEntries entries →
      Evaluation.Follows Related e (Entries.Renamed ρ)
        (evalEntries host scope entries) (evalEntries host (ρ.place scope) entries)
  | [], _ => .pure fun _ _ => .nil
  | (key, tree) :: rest, ⟨htree, hrest⟩ => by
      refine (follows_eval sim hhost hscope tree htree).bind fun f hf v v' hv => ?_
      have hinner := Nat.lt_of_lt_of_le hscope hf.scopes
      refine (follows_evalEntries sim hhost hinner rest hrest).bind fun g hg vs vs' hvs => ?_
      exact .pure fun k hk =>
        .cons ⟨Key.renamed_str ρ k key, hv.mono (hg.trans hk)⟩ (hvs.mono hk)

end

/-! # Sources -/

section Sources

variable {Related : Store → Store → Prop} (sim : Simulation ρ floor Related) {host : Host}
  (hhost : host.IsPure) {scope : Nat} {e : Extent} (hscope : scope < e.scopes)

include sim hhost hscope

theorem follows_evalSource (source : String) :
    Evaluation.Follows Related e (Value.Renamed ρ) (evalSource host scope source)
      (evalSource host (ρ.place scope) source) := by
  unfold evalSource
  split
  next tree hcompile =>
    exact follows_eval sim hhost hscope tree (Grammar.unmarked_of_compile hcompile)
  · exact .reads fun _ _ _ _ => .error _

theorem follows_textOfSource (source : String) :
    Evaluation.Follows Related e (fun _ => Eq) (textOfSource host scope source)
      (textOfSource host (ρ.place scope) source) := by
  refine (follows_evalSource sim hhost hscope source).bind fun f hf v w hv => ?_
  refine .reads fun σ τ h hwithin => ?_
  rw [(sim.mirrors h).outputText_eq (hv.mono hwithin)]
  cases σ.outputText v with
  | ok text => exact .ok rfl
  | error failure => exact .error failure

end Sources

end Stencil
