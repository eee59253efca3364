import Stencil.Proofs.Expression.Occurrences
import Stencil.Proofs.Expression.Operations
import Stencil.Proofs.Sandbox.Noninterference

/-!
# The order of calls

An evaluation that notes for each call where it stands takes its course as ever. The calls it
makes come in the order of the expression in which subscripts stand before their objects, and no
call is made twice. So they come from left to right unless some member access makes a call in its
subscript and one in its object: then the one in the subscript is made first.
-/

namespace Stencil

/-! # Evaluations that note their calls -/

structure Made where
  way : Way
  call : Invocation

/-- Evaluations that keep a list of the calls they make beside the store, the latest first. -/
abbrev Traced (α : Type) : Type := ExceptT Failure (StateM (Store × List Made)) α

namespace Traced

variable {α β : Type}

def quietly (action : Evaluation α) : Traced α := fun s =>
  ((action s.1).1, ((action s.1).2, s.2))

def call (host : Host) (scope : Nat) (way : Way) (v : Value) (args : List Value) :
    Traced Value := fun s =>
  let (result, after) := v.call host scope args s.1
  match v with
  | .callable f => (result, (after, ⟨way, ⟨f, args⟩⟩ :: s.2))
  | _ => (result, (after, s.2))

end Traced

mutual

def Expr.trace (host : Host) (scope : Nat) (way : Way) : Expr → Traced Value
  | .literal value => pure (.ofLiteral value)
  | .name name => Traced.quietly do return (← get).lookup scope name
  | .this => Traced.quietly do return (← get).receiver scope
  | .member target key => do
      let k ← key.trace host scope (1 :: way)
      match target with
      | .this => Traced.quietly do Evaluation.ofExcept (receiverMember (← get) scope k)
      | target =>
          let v ← target.trace host scope (0 :: way)
          Traced.quietly do Evaluation.ofExcept ((← get).member v k)
  | .call callee args => do
      let f ← callee.trace host scope (0 :: way)
      let vs ← traceList host scope way 1 args
      Traced.call host scope way f vs
  | .unary op operand => do
      let v ← operand.trace host scope (0 :: way)
      Traced.quietly (evalUnary op v)
  | .binary op left right => do
      let v ← left.trace host scope (0 :: way)
      let w ← right.trace host scope (1 :: way)
      Traced.quietly (evalBinary op v w)
  | .logical .and left right => do
      let v ← left.trace host scope (0 :: way)
      if v.truthy then right.trace host scope (1 :: way) else return v
  | .logical .or left right => do
      let v ← left.trace host scope (0 :: way)
      if v.truthy then return v else right.trace host scope (1 :: way)
  | .conditional test yes no => do
      let v ← test.trace host scope (0 :: way)
      if v.truthy then yes.trace host scope (1 :: way) else no.trace host scope (2 :: way)
  | .array items => do return .list (← traceList host scope way 0 items)
  | .object entries => do
      return .map (Entries.ofPairs (← traceEntries host scope way 0 entries))

def traceList (host : Host) (scope : Nat) (way : Way) : Nat → List Expr → Traced (List Value)
  | _, [] => pure []
  | n, e :: rest => do
      let v ← e.trace host scope (n :: way)
      let vs ← traceList host scope way (n + 1) rest
      return v :: vs

def traceEntries (host : Host) (scope : Nat) (way : Way) :
    Nat → List (Text × Expr) → Traced (Entries Value)
  | _, [] => pure []
  | n, (key, e) :: rest => do
      let v ← e.trace host scope (n :: way)
      let others ← traceEntries host scope way (n + 1) rest
      return (.str key, v) :: others

end

def Expr.callsMade (host : Host) (scope : Nat) (e : Expr) (σ : Store) : List Made :=
  (e.trace host scope [] (σ, [])).2.2.reverse

/-! # Nothing but the notes is added -/

namespace Traced

variable {α β : Type} {ways later : List Way}

/--
Whether a traced evaluation takes the course of another, notes the calls it makes, and makes them
in the order of some ways.
-/
def Follows (ways : List Way) (traced : Traced α) (action : Evaluation α) : Prop :=
  ∀ σ old, ∃ new, traced (σ, old) = ((action σ).1, ((action σ).2, new ++ old)) ∧
    (action σ).2.calls = new.map (·.call) ++ σ.calls ∧
    (new.reverse.map (·.way)).Sublist ways

theorem Follows.mono {traced : Traced α} {action : Evaluation α} (h : Follows ways traced action)
    (hways : ways.Sublist later) : Follows later traced action := by
  intro σ old
  rcases h σ old with ⟨new, hrun, hcalls, hnew⟩
  exact ⟨new, hrun, hcalls, hnew.trans hways⟩

theorem Follows.quietly {action : Evaluation α} (h : ∀ σ, (action σ).2.calls = σ.calls) :
    Follows ways (Traced.quietly action) action := by
  intro σ old
  exact ⟨[], rfl, h σ, List.nil_sublist ways⟩

theorem Follows.pure (a : α) : Follows ways (Pure.pure a : Traced α) (Pure.pure a) := by
  intro σ old
  exact ⟨[], rfl, rfl, List.nil_sublist ways⟩

theorem Follows.bind {traced : Traced α} {action : Evaluation α}
    (haction : Follows ways traced action) {next : α → Traced β} {after : α → Evaluation β}
    (hnext : ∀ a, Follows later (next a) (after a)) :
    Follows (ways ++ later) (traced >>= next) (action >>= after) := by
  intro σ old
  rcases haction σ old with ⟨new, hrun, hcalls, hnew⟩
  rw [bind_def, bind_def, hrun]
  generalize action σ = run at hcalls
  rcases run with ⟨failure | a, τ⟩
  · exact ⟨new, rfl, hcalls, hnew.trans (List.sublist_append_left _ _)⟩
  · rcases hnext a τ (new ++ old) with ⟨more, hmore, hlater, hsome⟩
    refine ⟨more ++ new, ?_, ?_, ?_⟩
    · rw [List.append_assoc]
      exact hmore
    · rw [List.map_append, List.append_assoc, ← hcalls]
      exact hlater
    · rw [List.reverse_append, List.map_append]
      exact hnew.append hsome

theorem Follows.last {traced : Traced α} {action : Evaluation α}
    (haction : Follows ways traced action) {next : α → Traced β} {after : α → Evaluation β}
    (hnext : ∀ a, Follows [] (next a) (after a)) :
    Follows ways (traced >>= next) (action >>= after) := by
  have h := haction.bind hnext
  rwa [List.append_nil] at h

theorem calls_binds (scope : Nat) (binds : List (Key × Value)) (σ : Store) :
    (binds.foldl (fun σ b => σ.bind scope b.1 b.2) σ).calls = σ.calls := by
  induction binds generalizing σ with
  | nil => rfl
  | cons b rest ih => exact ih (σ.bind scope b.1 b.2)

theorem calls_apply (host : Host) (scope : Nat) (f : Callable) (args : List Value) (σ : Store) :
    (f.apply host scope args σ).2.calls = ⟨f, args⟩ :: σ.calls := by
  cases f with
  | builtin function => rfl
  | host name takesScope =>
      cases takesScope with
      | false => rfl
      | true => exact calls_binds scope _ ((σ.record ⟨.host name true, args⟩).rewrite _)

theorem Follows.call (host : Host) (scope : Nat) (way : Way) (v : Value) (args : List Value) :
    Follows [way] (Traced.call host scope way v args) (v.call host scope args) := by
  intro σ old
  cases hcallable : v.isCallable with
  | true =>
      cases v with
      | callable f =>
          refine ⟨[⟨way, ⟨f, args⟩⟩], rfl, ?_, .refl _⟩
          exact calls_apply host scope f args σ
      | _ => cases hcallable
  | false =>
      refine ⟨[], ?_, ?_, List.nil_sublist _⟩
      · cases v with
        | callable f => cases hcallable
        | _ => rfl
      · rw [call_def host scope hcallable]
        cases σ.shownCallee v <;> rfl

end Traced

/-! # Evaluations are followed -/

namespace Traced

theorem Follows.of_operands {way : Way} {e : Expr} {traced : Traced Value}
    {action : Evaluation Value}
    (h : Follows ((e.turns .subscriptsFirst).flatMap fun turn =>
      turn.1.calls .subscriptsFirst (turn.2 :: way)) traced action) :
    Follows (e.calls .subscriptsFirst way) traced action := by
  rw [Expr.calls_eq]
  exact h.mono (List.sublist_append_left _ _)

mutual

theorem follows_eval (host : Host) (scope : Nat) (way : Way) :
    (e : Expr) → Follows (e.calls .subscriptsFirst way) (e.trace host scope way)
      (e.eval host scope)
  | .literal value => .pure _
  | .name name => .quietly fun _ => rfl
  | .this => .quietly fun _ => rfl
  | .member target key => by
      have hkey := follows_eval host scope (1 :: way) key
      have htarget := follows_eval host scope (0 :: way) target
      refine .of_operands ?_
      cases target with
      | this => exact hkey.bind fun k => .quietly fun _ => rfl
      | _ => exact hkey.bind fun k => htarget.bind fun v => .quietly fun _ => rfl
  | .call callee args => by
      have hcallee := follows_eval host scope (0 :: way) callee
      have hargs := follows_evalList host scope way 1 args
      have h := hcallee.bind fun f => hargs.bind fun vs => Follows.call host scope way f vs
      rw [← List.append_assoc] at h
      rw [Expr.calls_eq]
      exact h
  | .unary op operand => by
      have hoperand := follows_eval host scope (0 :: way) operand
      have hcalls (v : Value) (σ : Store) := (marks_evalUnary op v σ).calls_eq
      exact .of_operands (hoperand.bind fun v => .quietly (hcalls v))
  | .binary op left right => by
      have hleft := follows_eval host scope (0 :: way) left
      have hright := follows_eval host scope (1 :: way) right
      have hcalls (v w : Value) (σ : Store) := (marks_evalBinary op v w σ).calls_eq
      exact .of_operands (hleft.bind fun v => hright.bind fun w => .quietly (hcalls v w))
  | .logical .and left right => by
      have hleft := follows_eval host scope (0 :: way) left
      have hright := follows_eval host scope (1 :: way) right
      refine .of_operands (hleft.bind fun v => ?_)
      cases v.truthy with
      | true => exact hright.mono (List.sublist_append_left _ _)
      | false => exact .pure v
  | .logical .or left right => by
      have hleft := follows_eval host scope (0 :: way) left
      have hright := follows_eval host scope (1 :: way) right
      refine .of_operands (hleft.bind fun v => ?_)
      cases v.truthy with
      | true => exact .pure v
      | false => exact hright.mono (List.sublist_append_left _ _)
  | .conditional test yes no => by
      have htest := follows_eval host scope (0 :: way) test
      have hyes := follows_eval host scope (1 :: way) yes
      have hno := follows_eval host scope (2 :: way) no
      refine .of_operands (htest.bind fun v => ?_)
      cases v.truthy with
      | true => exact hyes.mono (List.sublist_append_left _ _)
      | false =>
          exact hno.mono ((List.sublist_append_left _ _).trans (List.sublist_append_right _ _))
  | .array items => by
      have hitems := follows_evalList host scope way 0 items
      exact .of_operands (hitems.last fun _ => .pure _)
  | .object entries => by
      have hentries := follows_evalEntries host scope way 0 entries
      exact .of_operands (hentries.last fun _ => .pure _)

theorem follows_evalList (host : Host) (scope : Nat) (way : Way) (n : Nat) :
    (es : List Expr) →
      Follows ((es.zipIdx n).flatMap fun turn => turn.1.calls .subscriptsFirst (turn.2 :: way))
        (traceList host scope way n es) (evalList host scope es)
  | [] => .pure _
  | e :: rest => by
      have hfirst := follows_eval host scope (n :: way) e
      have hrest := follows_evalList host scope way (n + 1) rest
      exact hfirst.bind fun v => hrest.last fun vs => .pure _

theorem follows_evalEntries (host : Host) (scope : Nat) (way : Way) (n : Nat) :
    (entries : List (Text × Expr)) →
      Follows (((entries.map (·.2)).zipIdx n).flatMap fun turn =>
          turn.1.calls .subscriptsFirst (turn.2 :: way))
        (traceEntries host scope way n entries) (evalEntries host scope entries)
  | [] => .pure _
  | (key, e) :: rest => by
      have hfirst := follows_eval host scope (n :: way) e
      have hrest := follows_evalEntries host scope way (n + 1) rest
      exact hfirst.bind fun v => hrest.last fun others => .pure _

end

end Traced

/-! # The order in which calls are made -/

/--
An evaluation makes some of the calls of its expression, each of them once, in the order in which
subscripts come before their objects. Its calls come from left to right unless there is a member
access of which it makes a call in the subscript and one in the object.
-/
theorem calls_made_in_order (host : Host) (scope : Nat) (e : Expr) (σ : Store) :
    let made := e.callsMade host scope σ
    e.trace host scope [] (σ, []) =
        ((e.eval host scope σ).1, ((e.eval host scope σ).2, made.reverse)) ∧
      (e.eval host scope σ).2.calls = (made.map (·.call)).reverse ++ σ.calls ∧
      (e.calls .leftToRight []).Nodup ∧
      (e.calls .subscriptsFirst []).Perm (e.calls .leftToRight []) ∧
      (made.map (·.way)).Sublist (e.calls .subscriptsFirst []) ∧
      (made.map (·.way)).Nodup ∧
      ((made.map (·.way)).Sublist (e.calls .leftToRight []) ↔
        ¬ e.Crosses (made.map (·.way)) []) := by
  intro made
  rcases Traced.follows_eval host scope [] e σ [] with ⟨new, hrun, hcalls, hnew⟩
  have hmade : made = new.reverse := by
    rw [List.append_nil] at hrun
    exact congrArg (fun run => run.2.2.reverse) hrun
  rw [← hmade] at hnew
  refine ⟨?_, ?_, Expr.nodup_calls _ _ _, Expr.calls_perm _ _ _ _, hnew,
    hnew.nodup (Expr.nodup_calls _ _ _), Expr.sublist_leftToRight_iff hnew⟩
  · rw [hrun, hmade, List.reverse_reverse, List.append_nil]
  · rw [hcalls, hmade, List.map_reverse, List.reverse_reverse]

def Host.zero : Host where
  run _ _ _ _ := { result := .ok (.int 0) }

/-- In a member access between two calls, the one in the subscript is made first. -/
theorem subscript_called_first :
    let e : Expr := .member (.call (.name "f") []) (.call (.name "g") [])
    let σ := Store.ofData []
      [("f", .callable (.host "f" false)), ("g", .callable (.host "g" false))]
    let made := (e.callsMade .zero 0 σ).map (·.way)
    Expr.compile "f()[g()]" = .ok e ∧ made = [[1], [0]] ∧ e.calls .leftToRight [] = [[0], [1]] ∧
      ¬ made.Sublist (e.calls .leftToRight []) := by
  intro e σ made
  have hmade : made = [[1], [0]] := by
    cbv
  have hcalls : e.calls .leftToRight [] = [[0], [1]] := by
    cbv
  have hcompiled : Expr.compile "f()[g()]" = .ok e := by
    cbv
  refine ⟨hcompiled, hmade, hcalls, ?_⟩
  rw [hmade, hcalls]
  decide

end Stencil
