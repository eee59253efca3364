import Stencil.Expression.Evaluation
import Stencil.Proofs.Outcome

/-!
# Failures that can be told

What the built-in operations and helpers fail with has a text. Only a function of the host can fail
in another way.
-/

namespace Stencil

def Failure.IsTold (failure : Failure) : Prop :=
  failure.told = .ok failure.message

def Tells {α : Type} (result : Except Failure α) : Prop :=
  ∀ failure, result = .error failure → failure.IsTold

namespace Tells

variable {α β : Type}

theorem ok (a : α) : Tells (.ok a : Except Failure α) := by
  intro failure h
  cases h

theorem error {failure : Failure} (h : failure.IsTold) :
    Tells (.error failure : Except Failure α) := by
  rintro _ ⟨⟩
  exact h

theorem bind {first : Except Failure α} {next : α → Except Failure β} (hfirst : Tells first)
    (hnext : ∀ a, Tells (next a)) : Tells (first >>= next) := by
  intro failure h
  rcases bind_eq_error_iff.mp h with h | ⟨a, -, h⟩
  · exact hfirst failure h
  · exact hnext a failure h

theorem map {first : Except Failure α} (h : Tells first) (f : α → β) : Tells (first.map f) := by
  cases first with
  | ok a => exact .ok _
  | error failure => exact .error (h failure rfl)

end Tells

/-! # Members -/

theorem Value.tells_position? (key : Value) : Tells key.position? := by
  unfold position?
  dsimp only
  repeat' split
  all_goals first
    | exact .ok _
    | exact .error rfl

theorem tells_elementMember (elements : List Value) (key : Value) :
    Tells (elementMember elements key) := by
  have hposition := key.tells_position?
  unfold elementMember
  split
  · exact .ok _
  · split
    next failure h => exact .error (hposition failure h)
    · exact .ok _
    · exact .ok _

namespace Store

variable (σ : Store)

theorem tells_member (target key : Value) : Tells (σ.member target key) := by
  unfold member
  repeat' split
  all_goals first
    | exact .ok _
    | exact tells_elementMember _ _

/-! # Texts -/

mutual

theorem tells_documentWith {enter : Place → Except Failure Document} (h : ∀ p, Tells (enter p)) :
    (v : Value) → Tells (documentWith enter v)
  | .list items => by
      rw [documentWith]
      exact (tells_documentItems h items).bind fun _ => .ok _
  | .map entries => by
      rw [documentWith]
      exact (tells_documentEntries h entries).bind fun _ => .ok _
  | .shared place => h (.shared place)
  | .scope place => h (.scope place)
  | .undefined | .null | .bool _ | .int _ | .float _ | .str _ | .callable _ | .jsonTools
  | .host _ _ _ _ => by
      rw [documentWith]
      exact .ok _

theorem tells_documentItems {enter : Place → Except Failure Document} (h : ∀ p, Tells (enter p)) :
    (items : List Value) → Tells (documentItems enter items)
  | [] => .ok _
  | v :: rest => by
      rw [documentItems]
      exact (tells_documentWith h v).bind fun _ => (tells_documentItems h rest).bind fun _ => .ok _

theorem tells_documentEntries {enter : Place → Except Failure Document}
    (h : ∀ p, Tells (enter p)) :
    (entries : List (Key × Value)) → Tells (documentEntries enter entries)
  | [] => .ok _
  | (_, v) :: rest => by
      rw [documentEntries]
      exact (tells_documentWith h v).bind fun _ =>
        (tells_documentEntries h rest).bind fun _ => .ok _

end

theorem tells_documentPlace (left : Nat) (entered : List Place) (p : Place) :
    Tells (σ.documentPlace left entered p) := by
  induction left generalizing entered p with
  | zero => exact .error rfl
  | succ left ih =>
      unfold documentPlace
      split
      · exact .error rfl
      · exact tells_documentWith (ih _) _

end Store

namespace Json

variable (style : JsonStyle)

theorem tells_floatText (x : Binary64) : Tells (floatText style x) := by
  unfold floatText
  split
  · exact .ok _
  · split
    · exact .ok _
    · exact .error rfl

theorem tells_keyText (key : Key) : Tells (keyText style key) := by
  cases key with
  | float x => exact tells_floatText style x
  | undefined => exact .error rfl
  | callable f => exact .error rfl
  | _ => exact .ok _

mutual

theorem tells_write (depth : Nat) : (d : Document) → Tells (write style depth d)
  | .null | .bool _ | .int _ | .str _ | .list [] | .object [] => by
      rw [write]
      exact .ok _
  | .float x => by
      rw [write]
      exact tells_floatText style x
  | .list (first :: rest) => by
      rw [write]
      exact (tells_write (depth + 1) first).bind fun _ =>
        (tells_writeItems (depth + 1) rest).bind fun _ => .ok _
  | .object ((key, first) :: rest) => by
      rw [write]
      exact (tells_keyText style key).bind fun _ => (tells_write (depth + 1) first).bind fun _ =>
        (tells_writeEntries (depth + 1) rest).bind fun _ => .ok _

theorem tells_writeItems (depth : Nat) :
    (items : List Document) → Tells (writeItems style depth items)
  | [] => .ok _
  | d :: rest => by
      rw [writeItems]
      exact (tells_write depth d).bind fun _ => (tells_writeItems depth rest).bind fun _ => .ok _

theorem tells_writeEntries (depth : Nat) :
    (entries : List (Key × Document)) → Tells (writeEntries style depth entries)
  | [] => .ok _
  | (key, d) :: rest => by
      rw [writeEntries]
      exact (tells_keyText style key).bind fun _ => (tells_write depth d).bind fun _ =>
        (tells_writeEntries depth rest).bind fun _ => .ok _

end

end Json

namespace Store

variable (σ : Store)

theorem tells_jsonText (style : JsonStyle) (v : Value) : Tells (σ.jsonText style v) :=
  (tells_documentWith (σ.tells_documentPlace _ []) v).bind fun d => Json.tells_write style 0 d

theorem tells_outputText (v : Value) : Tells (σ.outputText v) := by
  unfold outputText
  split
  case h_9 => exact (σ.tells_jsonText .compact _).map some
  all_goals exact .ok _

theorem tells_shownCallee (v : Value) : Tells (σ.shownCallee v) := by
  refine (σ.tells_outputText v).bind fun text => ?_
  cases text with
  | some text => exact .ok _
  | none => exact .ok _

/-! # Comparisons -/

section Equality

variable {enter : Place → Value → Except Failure Bool}

mutual

theorem tells_equalWith (h : ∀ p w, Tells (enter p w)) :
    (v w : Value) → Tells (σ.equalWith enter v w)
  | .list items, w => by
      rw [equalWith]
      split
      · split
        · exact tells_equalItems h items _
        · exact .ok _
      · exact .ok _
  | .map entries, w => by
      rw [equalWith]
      split
      · split
        · exact tells_equalEntries h entries _
        · exact .ok _
      · exact .ok _
  | .jsonTools, w => by
      rw [equalWith]
      split <;> exact .ok _
  | .shared place, w => h (.shared place) w
  | .scope place, w => h (.scope place) w
  | .undefined, _ | .null, _ | .bool _, _ | .int _, _ | .float _, _ | .str _, _ | .callable _, _
  | .host _ _ _ _, _ => .ok _

theorem tells_equalItems (h : ∀ p w, Tells (enter p w)) :
    (items others : List Value) → Tells (σ.equalItems enter items others)
  | v :: rest, w :: others => by
      rw [equalItems]
      split
      · exact tells_equalItems h rest others
      · refine (tells_equalWith h v w).bind fun same => ?_
        cases same with
        | true => exact tells_equalItems h rest others
        | false => exact .ok _
  | [], _ => .ok _
  | _ :: _, [] => .ok _

theorem tells_equalEntries (h : ∀ p w, Tells (enter p w)) :
    (entries : List (Key × Value)) → (others : Entries Value) →
      Tells (σ.equalEntries enter entries others)
  | [], _ => .ok _
  | (key, v) :: rest, others => by
      rw [equalEntries]
      split
      · exact .ok _
      next w _ =>
          split
          · exact tells_equalEntries h rest others
          · refine (tells_equalWith h v w).bind fun same => ?_
            cases same with
            | true => exact tells_equalEntries h rest others
            | false => exact .ok _

end

end Equality

theorem tells_equalPlace (left : Nat) (p : Place) (w : Value) :
    Tells (σ.equalPlace left p w) := by
  induction left generalizing p w with
  | zero => exact .error rfl
  | succ left ih => exact σ.tells_equalWith ih _ w

theorem tells_equal (v w : Value) : Tells (σ.equal v w) :=
  σ.tells_equalWith (fun p u => σ.tells_equalPlace _ p u) v w

theorem tells_looseEqual (v w : Value) : Tells (σ.looseEqual v w) := by
  have hnumbers : ∀ x s, Tells (looseEqual.asNumbers x s) := by
    intro x s
    unfold looseEqual.asNumbers
    split
    next e _ => cases e <;> exact .error rfl
    · split <;> exact .ok _
  unfold looseEqual
  split
  · exact .ok _
  · split
    · exact hnumbers _ _
    · exact hnumbers _ _
    · exact σ.tells_equal _ _

theorem tells_strictEqual (v w : Value) : Tells (σ.strictEqual v w) := by
  unfold strictEqual
  repeat' split
  all_goals first
    | exact .ok _
    | exact σ.tells_equal _ _

/-! # Order -/

theorem tells_plainCompare (op : ComparisonOp) (v w : Value) : Tells (σ.plainCompare op v w) := by
  unfold plainCompare
  split
  · exact .ok _
  · split
    · exact .ok _
    · exact .error rfl

section Order

variable {op : ComparisonOp} {enter : Place → Value → Except Failure Bool}

mutual

theorem tells_compareWith (h : ∀ p w, Tells (enter p w)) :
    (v w : Value) → Tells (σ.compareWith op enter v w)
  | .list items, w => by
      rw [compareWith]
      split
      · exact tells_compareItems h items _
      · exact .error rfl
  | .shared place, w => h (.shared place) w
  | .undefined, w | .null, w | .bool _, w | .int _, w | .float _, w | .str _, w | .callable _, w
  | .map _, w | .jsonTools, w | .scope _, w | .host _ _ _ _, w => by
      simpa only [compareWith] using σ.tells_plainCompare op _ w

theorem tells_compareItems (h : ∀ p w, Tells (enter p w)) :
    (items others : List Value) → Tells (σ.compareItems op enter items others)
  | v :: rest, w :: others => by
      rw [compareItems]
      split
      · exact tells_compareItems h rest others
      · refine (σ.tells_equal v w).bind fun same => ?_
        cases same with
        | true => exact tells_compareItems h rest others
        | false => exact tells_compareWith h v w
  | [], _ => .ok _
  | _ :: _, [] => .ok _

end

end Order

theorem tells_comparePlace (op : ComparisonOp) (left : Nat) (p : Place) (w : Value) :
    Tells (σ.comparePlace op left p w) := by
  induction left generalizing p w with
  | zero => exact .error rfl
  | succ left ih => exact σ.tells_compareWith ih _ w

theorem tells_compareValues (op : ComparisonOp) (v w : Value) :
    Tells (σ.compareValues op v w) := by
  unfold compareValues
  split
  · exact .ok _
  · exact σ.tells_compareWith (fun p u => σ.tells_comparePlace op _ p u) v w

end Store

/-! # Built-in helpers -/

namespace Builtin

variable (σ : Store)

theorem tells_mapText (f : Text → Text) (v : Value) : Tells (mapText σ f v) :=
  ((σ.tells_outputText v).map _).map _

theorem tells_indentStep (space : Value) : Tells (indentStep space) := by
  unfold indentStep
  repeat' split
  all_goals first
    | exact .ok _
    | exact .error rfl

theorem tells_stringifyValue (v space : Value) : Tells (stringifyValue σ v space) := by
  unfold stringifyValue
  split
  · exact .ok _
  · exact (tells_indentStep space).bind fun _ => (σ.tells_jsonText _ v).bind fun _ => .ok _

theorem tells_run (function : Builtin) (args : List Value) : Tells (run σ function args) := by
  unfold run
  split
  · exact (σ.tells_jsonText .compact _).map _
  · unfold lengthOf
    split
    · exact .ok _
    · exact .ok _
    · exact .ok _
    · exact .error rfl
  · exact .ok _
  · exact tells_mapText σ _ _
  · exact tells_mapText σ _ _
  · exact tells_mapText σ _ _
  · exact tells_stringifyValue σ _ _
  · exact tells_stringifyValue σ _ _
  · exact tells_stringifyValue σ _ _
  · unfold parseValue
    split
    · split
      · exact .ok _
      · exact .error rfl
    · exact .error rfl
  · exact .error rfl

end Builtin

/-! # Operators -/

section Operators

variable (σ : Store)

theorem tells_concatenate (v w : Value) : Tells (concatenate σ v w) := by
  refine (σ.tells_outputText v).bind fun left => (σ.tells_outputText w).bind fun right => ?_
  split
  · exact .ok _
  · exact .error rfl

theorem tells_evalArithmetic (op : ArithmeticOp) (v w : Value) :
    Tells (evalArithmetic op v w σ).1 := by
  unfold evalArithmetic
  split
  · exact .ok _
  · split
    · exact tells_concatenate σ v w
    · split
      · exact .ok _
      next failure h =>
          unfold arithmeticValue at h
          split at h
          · split at h
            · cases h
            next e _ =>
                cases h
                cases e <;> exact .error rfl
          · cases h
            exact .error rfl

theorem tells_evalBinary (op : BinaryOp) (v w : Value) : Tells (evalBinary op v w σ).1 := by
  cases op with
  | arithmetic op => exact tells_evalArithmetic σ op v w
  | comparison op => exact (σ.tells_compareValues op v w).map _
  | looseEqual => exact (σ.tells_looseEqual v w).map _
  | looseUnequal => exact (σ.tells_looseEqual v w).map _
  | strictEqual => exact (σ.tells_strictEqual v w).map _
  | strictUnequal => exact (σ.tells_strictEqual v w).map _

theorem tells_evalUnary (op : UnaryOp) (v : Value) : Tells (evalUnary op v σ).1 := by
  unfold evalUnary
  repeat' split
  all_goals first
    | exact .ok _
    | exact .error rfl

theorem tells_receiverMember (scope : Nat) (key : Value) :
    Tells (receiverMember σ scope key) := by
  refine (σ.tells_member (σ.receiver scope) key).bind fun found => ?_
  split
  · split <;> exact .ok _
  · exact .ok _

end Operators

/-! # Functions of the host -/

namespace Host

variable (host : Host)

def Raises (failure : Failure) : Prop :=
  ∃ σ scope name args, (host.run σ scope name args).result = .error failure

/-- What goes on in the place of a failure of the host that cannot be told or caught. -/
def Escapes (again : Failure) : Prop :=
  ∃ failure, host.Raises failure ∧ failure.told = .error again

/-- Whether the functions of the host fail with what can be told only. -/
def Tells : Prop :=
  ∀ failure, host.Raises failure → failure.IsTold

variable {host}

theorem Tells.not_escapes (h : host.Tells) (again : Failure) : ¬ host.Escapes again := by
  rintro ⟨failure, hraised, hagain⟩
  cases (h failure hraised).symm.trans hagain

end Host
end Stencil
