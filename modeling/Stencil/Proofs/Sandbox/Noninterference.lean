import Stencil.Proofs.Expression.Operations
import Stencil.Proofs.Outcome
import Stencil.Proofs.Sandbox.Reading

/-!
# Expressions see no hidden attributes

An expression that is evaluated in two alike stores comes to alike values, or fails in
the same way, and it calls the same functions in the same order. The functions of the
host application are taken to treat alike arguments alike; everything else follows from
how expressions read values.
-/

namespace Stencil

/-! # Built-in helpers -/

namespace Builtin

theorem lengthOf_def (σ : Store) (v : Value) :
    lengthOf σ v =
      match v.text? with
      | some s => .ok (.int s.length)
      | none =>
          match σ.shape v with
          | .list items => .ok (.int items.length)
          | .map entries => .ok (.int entries.length)
          | .plain => .error (.noLength (σ.typeName v)) := by
  unfold lengthOf
  generalize σ.shape v = s
  cases v <;> cases s <;> rfl

theorem parseValue_def (σ : Store) (v : Value) :
    parseValue σ v =
      match v.text? with
      | some s =>
          match Json.read? s with
          | some d => .ok (.ofDocument d)
          | none => .error .malformedData
      | none => .error (.notText (σ.typeName v)) := by
  cases v <;> rfl

section Helpers

variable {σ τ : Store} (h : σ.Alike τ) {v w : Value} (hv : Value.Alike v w)

include h hv

theorem lengthOf_eq : lengthOf σ v = lengthOf τ w := by
  have hshape := h.shape hv
  rw [lengthOf_def, lengthOf_def, hv.text?_eq, h.typeName_eq hv]
  generalize σ.shape v = s at hshape ⊢
  generalize τ.shape w = t at hshape ⊢
  cases hshape with
  | list hitems => simp only [hitems.length_eq]
  | map hentries => simp only [hentries.length_eq]
  | plain => rfl

theorem mapText_eq (f : Text → Text) : mapText σ f v = mapText τ f w := by
  rw [mapText, mapText, textOrEmpty, textOrEmpty, h.outputText_eq hv]

theorem parseValue_eq : parseValue σ v = parseValue τ w := by
  rw [parseValue_def, parseValue_def, hv.text?_eq, h.typeName_eq hv]

theorem stringifyValue_eq {space space' : Value} (hspace : Value.Alike space space') :
    stringifyValue σ v space = stringifyValue τ w space' := by
  have hindent : indentStep space = indentStep space' := by
    cases hspace <;> rfl
  have hjson : ∀ style, σ.jsonText style v = τ.jsonText style w := by
    intro style
    exact h.jsonText_eq style hv
  simp only [stringifyValue, hv.isUndefined_eq, hv.isCallable_eq, hindent, hjson]

end Helpers

theorem run_alike {σ τ : Store} (h : σ.Alike τ) (function : Builtin) {args others : List Value}
    (hargs : List.Forall₂ Value.Alike args others) :
    OutcomeAlike Value.Alike (function.run σ args) (function.run τ others) := by
  cases hargs with
  | nil => cases function <;> exact .error _
  | cons hv hrest =>
      cases hrest with
      | nil =>
          cases function with
          | json =>
              apply OutcomeAlike.of_eq
              simp only [run, h.jsonText_eq .compact hv]
          | length => exact .of_eq (lengthOf_eq h hv)
          | default => exact .error _
          | upper => exact .of_eq (mapText_eq h hv _)
          | lower => exact .of_eq (mapText_eq h hv _)
          | escape => exact .of_eq (mapText_eq h hv _)
          | stringify => exact .of_eq (stringifyValue_eq h hv (.atom rfl))
          | parse => exact .of_eq (parseValue_eq h hv)
      | cons hw hmore =>
          cases hmore with
          | nil =>
              cases function with
              | default =>
                  simp only [run, hv.isNullish_eq]
                  split
                  · exact .ok hw
                  · exact .ok hv
              | stringify => exact .of_eq (stringifyValue_eq h hv (.atom rfl))
              | _ => exact .error _
          | cons hspace hfurther =>
              cases hfurther with
              | nil =>
                  cases function with
                  | stringify => exact .of_eq (stringifyValue_eq h hv hspace)
                  | _ => exact .error _
              | cons => cases function <;> exact .error _

end Builtin

/-! # Related computations -/

def Related {α β : Type} (R : α → β → Prop) (m : Evaluation α) (n : Evaluation β) : Prop :=
  ∀ σ τ : Store, σ.Alike τ → OutcomeAlike R (m σ).1 (n τ).1 ∧ (m σ).2.Alike (n τ).2

theorem Related.pure {α β : Type} {R : α → β → Prop} {a : α} {b : β} (h : R a b) :
    Related R (pure a) (pure b) := by
  intro σ τ hστ
  exact ⟨.ok h, hστ⟩

theorem Related.bind {α β γ δ : Type} {R : α → β → Prop} {S : γ → δ → Prop}
    {m : Evaluation α} {n : Evaluation β} {k : α → Evaluation γ} {l : β → Evaluation δ}
    (h : Related R m n) (hk : ∀ a b, R a b → Related S (k a) (l b)) :
    Related S (m >>= k) (n >>= l) := by
  intro σ τ hστ
  rcases h σ τ hστ with ⟨houtcome, hafter⟩
  rw [bind_def, bind_def]
  generalize m σ = first at houtcome hafter ⊢
  generalize n τ = second at houtcome hafter ⊢
  rcases first with ⟨result, σ'⟩
  rcases second with ⟨other, τ'⟩
  cases houtcome with
  | ok hab => exact hk _ _ hab σ' τ' hafter
  | error e => exact ⟨.error e, hafter⟩

theorem Related.reads {α β : Type} {R : α → β → Prop} {f : Store → Except Failure α}
    {g : Store → Except Failure β} (h : ∀ σ τ, σ.Alike τ → OutcomeAlike R (f σ) (g τ)) :
    Related R (fun σ => (f σ, σ)) (fun τ => (g τ, τ)) := by
  intro σ τ hστ
  exact ⟨h σ τ hστ, hστ⟩

/-! # Operators -/

theorem arithmeticValue_eq {σ τ : Store} (h : σ.Alike τ) (op : ArithmeticOp) {v v' w w' : Value}
    (hv : Value.Alike v v') (hw : Value.Alike w w') :
    arithmeticValue σ op v w = arithmeticValue τ op v' w' := by
  rw [arithmeticValue, arithmeticValue, hv.number?_eq, hw.number?_eq, h.typeName_eq hv,
    h.typeName_eq hw]

theorem concatenate_eq {σ τ : Store} (h : σ.Alike τ) {v v' w w' : Value}
    (hv : Value.Alike v v') (hw : Value.Alike w w') :
    concatenate σ v w = concatenate τ v' w' := by
  rw [concatenate, concatenate, h.outputText_eq hv, h.outputText_eq hw]

theorem related_keep (result : Number) :
    Related Value.Alike (Evaluation.keep result) (Evaluation.keep result) := by
  intro σ τ h
  rcases h.keep result with ⟨hvalue, hafter⟩
  exact ⟨.ok hvalue, hafter⟩

section Operators

variable {v v' w w' : Value} (hv : Value.Alike v v') (hw : Value.Alike w w')

include hv hw

theorem related_arithmetic (op : ArithmeticOp) :
    Related Value.Alike (evalArithmetic op v w) (evalArithmetic op v' w') := by
  intro σ τ h
  unfold evalArithmetic
  simp only [hv.isUndefined_eq, hw.isUndefined_eq, hv.isStr_eq, hw.isStr_eq,
    concatenate_eq h hv hw, arithmeticValue_eq h op hv hw]
  split
  · exact ⟨.ok (.atom rfl), h⟩
  · split
    · exact ⟨.of_eq rfl, h⟩
    · split
      · exact related_keep _ σ τ h
      · exact ⟨.error _, h⟩

theorem related_binary (op : BinaryOp) :
    Related Value.Alike (evalBinary op v w) (evalBinary op v' w') := by
  cases op with
  | arithmetic op => exact related_arithmetic hv hw op
  | comparison op =>
      apply Related.reads
      intro σ τ h
      exact .of_eq (by rw [h.compareValues_eq op hv hw])
  | looseEqual =>
      apply Related.reads
      intro σ τ h
      exact .of_eq (by rw [h.looseEqual_eq hv hw])
  | looseUnequal =>
      apply Related.reads
      intro σ τ h
      exact .of_eq (by rw [h.looseEqual_eq hv hw])
  | strictEqual =>
      apply Related.reads
      intro σ τ h
      exact .of_eq (by rw [h.strictEqual_eq hv hw])
  | strictUnequal =>
      apply Related.reads
      intro σ τ h
      exact .of_eq (by rw [h.strictEqual_eq hv hw])

omit hw in
theorem related_unary (op : UnaryOp) :
    Related Value.Alike (evalUnary op v) (evalUnary op v') := by
  intro σ τ h
  unfold evalUnary
  simp only [hv.isUndefined_eq, hv.truthy_eq, hv.number?_eq, h.typeName_eq hv]
  cases op with
  | not => exact ⟨.ok (.atom rfl), h⟩
  | minus =>
      dsimp only
      split
      · exact ⟨.ok (.atom rfl), h⟩
      · split
        · exact ⟨.error _, h⟩
        · exact related_keep _ σ τ h
  | plus =>
      dsimp only
      split
      · exact ⟨.ok (.atom rfl), h⟩
      · split
        · exact ⟨.error _, h⟩
        · exact ⟨.of_eq rfl, h⟩

end Operators

/-! # Calls -/

structure Reply.Alike (r s : Reply) : Prop where
  binds : List.Forall₂ Value.LabelledAlike r.binds s.binds
  changes : List.Forall₂ (fun a b => a.1 = b.1 ∧ Container.Alike a.2 b.2) r.changes s.changes
  result : OutcomeAlike Value.Alike r.result s.result

/-- Functions of the host application that do not look at hidden attributes either. -/
def Host.Blind (host : Host) : Prop :=
  ∀ (σ τ : Store) (scope : Option Nat) (name : String) (args others : List Value),
    σ.Alike τ → List.Forall₂ Value.Alike args others →
    (host.run σ scope name args).Alike (host.run τ scope name others)

section Calls

variable {host : Host} (hhost : host.Blind) (scope : Nat)

include hhost

theorem related_apply (f : Callable) {args others : List Value}
    (hargs : List.Forall₂ Value.Alike args others) :
    Related Value.Alike (f.apply host scope args) (f.apply host scope others) := by
  intro σ τ h
  have hafter : (σ.record ⟨f, args⟩).Alike (τ.record ⟨f, others⟩) := h.record ⟨rfl, hargs⟩
  cases f with
  | builtin function => exact ⟨Builtin.run_alike h function hargs, hafter⟩
  | host name takesScope =>
      have hreply := hhost σ τ (if takesScope then some scope else none) name args others h hargs
      have hrewritten := hafter.rewrite hreply.changes
      cases takesScope with
      | true => exact ⟨hreply.result, hrewritten.bindAll scope hreply.binds⟩
      | false => exact ⟨hreply.result, hrewritten⟩

theorem related_call {v w : Value} (hv : Value.Alike v w) {args others : List Value}
    (hargs : List.Forall₂ Value.Alike args others) :
    Related Value.Alike (v.call host scope args) (w.call host scope others) := by
  cases hcallable : v.isCallable with
  | true =>
      cases v with
      | callable f =>
          rw [hv.eq_of_isAtom rfl]
          exact related_apply hhost scope f hargs
      | _ => cases hcallable
  | false =>
      intro σ τ h
      rw [call_def host scope hcallable, call_def host scope (hv.isCallable_eq ▸ hcallable),
        h.shownCallee_eq hv]
      cases τ.shownCallee w with
      | ok shown => exact ⟨.error _, h⟩
      | error e => exact ⟨.error _, h⟩

end Calls

/-! # Expressions -/

mutual

theorem related_eval {host : Host} (hhost : host.Blind) (scope : Nat) :
    (e : Expr) → Related Value.Alike (e.eval host scope) (e.eval host scope)
  | .literal value => .pure (.refl _)
  | .name name => .reads fun _ _ h => .ok (h.lookup scope name)
  | .this => .reads fun _ _ h => .ok (h.receiver scope)
  | .member target key => by
      have hkey := related_eval hhost scope key
      have htarget := related_eval hhost scope target
      cases target with
      | this =>
          exact hkey.bind fun _ _ hk => .reads fun _ _ h => h.receiverMember scope hk
      | _ =>
          exact hkey.bind fun _ _ hk =>
            htarget.bind fun _ _ hv => .reads fun _ _ h => h.member hv hk
  | .call callee args =>
      (related_eval hhost scope callee).bind fun _ _ hf =>
        (related_evalList hhost scope args).bind fun _ _ hargs =>
          related_call hhost scope hf hargs
  | .unary op operand =>
      (related_eval hhost scope operand).bind fun _ _ hv => related_unary hv op
  | .binary op left right =>
      (related_eval hhost scope left).bind fun _ _ hv =>
        (related_eval hhost scope right).bind fun _ _ hw => related_binary hv hw op
  | .logical .and left right => by
      refine (related_eval hhost scope left).bind fun v w hv => ?_
      rw [hv.truthy_eq]
      split
      · exact related_eval hhost scope right
      · exact .pure hv
  | .logical .or left right => by
      refine (related_eval hhost scope left).bind fun v w hv => ?_
      rw [hv.truthy_eq]
      split
      · exact .pure hv
      · exact related_eval hhost scope right
  | .conditional test yes no => by
      refine (related_eval hhost scope test).bind fun v w hv => ?_
      rw [hv.truthy_eq]
      split
      · exact related_eval hhost scope yes
      · exact related_eval hhost scope no
  | .array items =>
      (related_evalList hhost scope items).bind fun _ _ hitems => .pure (.ofItems hitems)
  | .object entries =>
      (related_evalEntries hhost scope entries).bind fun _ _ hentries =>
        .pure (.ofEntries hentries.ofPairs)

theorem related_evalList {host : Host} (hhost : host.Blind) (scope : Nat) :
    (es : List Expr) →
      Related (List.Forall₂ Value.Alike) (evalList host scope es) (evalList host scope es)
  | [] => .pure .nil
  | e :: rest =>
      (related_eval hhost scope e).bind fun _ _ hv =>
        (related_evalList hhost scope rest).bind fun _ _ hvs => .pure (.cons hv hvs)

theorem related_evalEntries {host : Host} (hhost : host.Blind) (scope : Nat) :
    (entries : List (Text × Expr)) →
      Related Entries.Alike (evalEntries host scope entries) (evalEntries host scope entries)
  | [] => .pure .nil
  | (_, e) :: rest =>
      (related_eval hhost scope e).bind fun _ _ hv =>
        (related_evalEntries hhost scope rest).bind fun _ _ hothers =>
          .pure (.cons ⟨rfl, hv⟩ hothers)

end

def Host.identity : Host where
  run _ _ _ args := {
    result := match args with
      | [v] => .ok v
      | _ => .error .wrongArguments }

end Stencil
