import Stencil.Proofs.Expression.Operations
import Stencil.Proofs.Expression.Telling

/-!
# What evaluations do

A relation between a store and what becomes of it holds across an evaluation if it holds across
operators and calls, where nothing happens, and from one change to the next. An evaluation fails
with what can be told, or with what a function of the host fails with.
-/

namespace Stencil

structure Store.GoesOn (R : Store → Store → Prop) : Prop where
  refl : ∀ σ, R σ σ
  trans : ∀ {σ τ υ}, R σ τ → R τ υ → R σ υ

namespace Evaluation

variable {R : Store → Store → Prop} {may : Failure → Prop} {α β : Type}

def Changes (R : Store → Store → Prop) (may : Failure → Prop) (action : Evaluation α) : Prop :=
  ∀ σ : Store, R σ (action σ).2 ∧ ∀ failure, (action σ).1 = .error failure → may failure

structure Permits (R : Store → Store → Prop) (may : Failure → Prop) : Prop
    extends Store.GoesOn R where
  told : ∀ failure, failure.IsTold → may failure := by intros; trivial

/-- What allows evaluations in a scope to do what they do to a store, and to fail as they do. -/
structure Allows (R : Store → Store → Prop) (may : Failure → Prop) (host : Host) (scope : Nat) :
    Prop extends Permits R may where
  marks : ∀ {σ τ}, σ.Marks τ → R σ τ
  record : ∀ σ call, R σ (σ.record call)
  binds : ∀ σ name args, ∀ b ∈ (host.run σ (some scope) name args).binds,
    ∀ τ, R τ (τ.bind scope b.1 b.2)
  rewrites : ∀ σ place name args τ, τ.shared = σ.shared →
    R τ (τ.rewrite (host.run σ place name args).changes)
  raised : ∀ failure, host.Raises failure → may failure := by intros; trivial

theorem Changes.reads (h : Permits R may) {f : Store → Except Failure α} (hf : ∀ σ, Tells (f σ)) :
    Changes R may (fun σ => (f σ, σ)) :=
  fun σ => ⟨h.refl σ, fun failure hfailure => h.told failure (hf σ failure hfailure)⟩

theorem Changes.pure (h : Permits R may) (a : α) :
    Changes R may (Pure.pure a : Evaluation α) :=
  .reads h fun _ => .ok a

theorem Changes.bind (h : Permits R may) {action : Evaluation α}
    (haction : Changes R may action) {next : α → Evaluation β}
    (hnext : ∀ a, Changes R may (next a)) : Changes R may (action >>= next) := by
  intro σ
  have hfirst := haction σ
  rw [bind_def]
  generalize action σ = run at hfirst
  rcases run with ⟨result, after⟩
  cases result with
  | ok a => exact ⟨h.trans hfirst.1 (hnext a after).1, (hnext a after).2⟩
  | error failure =>
      refine ⟨hfirst.1, ?_⟩
      rintro _ ⟨⟩
      exact hfirst.2 failure rfl

variable {host : Host} {scope : Nat}

theorem changes_bindAll (h : Allows R may host scope) {binds : List (Key × Value)}
    (hbinds : ∀ b ∈ binds, ∀ σ, R σ (σ.bind scope b.1 b.2)) (σ : Store) :
    R σ (binds.foldl (fun σ b => σ.bind scope b.1 b.2) σ) := by
  induction binds generalizing σ with
  | nil => exact h.refl σ
  | cons b rest ih =>
      exact h.trans (hbinds b List.mem_cons_self σ)
        (ih (fun other hother => hbinds other (List.mem_cons_of_mem b hother)) _)

theorem changes_apply (h : Allows R may host scope) (f : Callable) (args : List Value) :
    Changes R may (f.apply host scope args) := by
  intro σ
  have hrecord := h.record σ ⟨f, args⟩
  cases f with
  | builtin function =>
      exact ⟨hrecord, fun failure hfailure =>
        h.told failure (Builtin.tells_run σ function args failure hfailure)⟩
  | host name takesScope =>
      have hrewrite : ∀ place, R σ ((σ.record ⟨.host name takesScope, args⟩).rewrite
          (host.run σ place name args).changes) :=
        fun place => h.trans hrecord (h.rewrites σ place name args _ rfl)
      cases takesScope with
      | true =>
          exact ⟨h.trans (hrewrite (some scope)) (changes_bindAll h (h.binds σ name args) _),
            fun failure hfailure => h.raised failure ⟨_, _, _, _, hfailure⟩⟩
      | false =>
          exact ⟨hrewrite none, fun failure hfailure => h.raised failure ⟨_, _, _, _, hfailure⟩⟩

theorem changes_call (h : Allows R may host scope) (v : Value) (args : List Value) :
    Changes R may (v.call host scope args) := by
  cases hcallable : v.isCallable with
  | false =>
      intro σ
      have htold := σ.tells_shownCallee v
      rw [call_def host scope hcallable]
      cases hshown : σ.shownCallee v with
      | ok shown =>
          refine ⟨h.refl σ, ?_⟩
          rintro _ ⟨⟩
          exact h.told _ rfl
      | error failure =>
          refine ⟨h.refl σ, ?_⟩
          rintro _ ⟨⟩
          exact h.told failure (htold failure hshown)
  | true =>
      cases v with
      | callable f => exact changes_apply h f args
      | _ => cases hcallable

theorem changes_evalUnary (h : Allows R may host scope) (op : UnaryOp) (v : Value) :
    Changes R may (evalUnary op v) := by
  intro σ
  exact ⟨h.marks (marks_evalUnary op v σ), fun failure hfailure =>
    h.told failure (tells_evalUnary σ op v failure hfailure)⟩

theorem changes_evalBinary (h : Allows R may host scope) (op : BinaryOp) (v w : Value) :
    Changes R may (evalBinary op v w) := by
  intro σ
  exact ⟨h.marks (marks_evalBinary op v w σ), fun failure hfailure =>
    h.told failure (tells_evalBinary σ op v w failure hfailure)⟩

mutual

theorem changes_eval (h : Allows R may host scope) : (e : Expr) → Changes R may (e.eval host scope)
  | .literal value => .pure h.toPermits _
  | .name name => .reads h.toPermits fun _ => .ok _
  | .this => .reads h.toPermits fun _ => .ok _
  | .member target key => by
      have hkey := changes_eval h key
      have htarget := changes_eval h target
      cases target with
      | this =>
          exact hkey.bind h.toPermits fun k =>
            .reads h.toPermits fun σ => tells_receiverMember σ scope k
      | _ =>
          exact hkey.bind h.toPermits fun k => htarget.bind h.toPermits fun v =>
            .reads h.toPermits fun σ => σ.tells_member v k
  | .call callee args =>
      (changes_eval h callee).bind h.toPermits fun f =>
        (changes_evalList h args).bind h.toPermits fun vs => changes_call h f vs
  | .unary op operand =>
      (changes_eval h operand).bind h.toPermits fun v => changes_evalUnary h op v
  | .binary op left right =>
      (changes_eval h left).bind h.toPermits fun v =>
        (changes_eval h right).bind h.toPermits fun w => changes_evalBinary h op v w
  | .logical .and left right => by
      refine (changes_eval h left).bind h.toPermits fun v => ?_
      split
      · exact changes_eval h right
      · exact .pure h.toPermits v
  | .logical .or left right => by
      refine (changes_eval h left).bind h.toPermits fun v => ?_
      split
      · exact .pure h.toPermits v
      · exact changes_eval h right
  | .conditional test yes no => by
      refine (changes_eval h test).bind h.toPermits fun v => ?_
      split
      · exact changes_eval h yes
      · exact changes_eval h no
  | .array items => (changes_evalList h items).bind h.toPermits fun _ => .pure h.toPermits _
  | .object entries => (changes_evalEntries h entries).bind h.toPermits fun _ => .pure h.toPermits _

theorem changes_evalList (h : Allows R may host scope) :
    (es : List Expr) → Changes R may (evalList host scope es)
  | [] => .pure h.toPermits _
  | e :: rest =>
      (changes_eval h e).bind h.toPermits fun _ =>
        (changes_evalList h rest).bind h.toPermits fun _ => .pure h.toPermits _

theorem changes_evalEntries (h : Allows R may host scope) :
    (entries : List (Text × Expr)) → Changes R may (evalEntries host scope entries)
  | [] => .pure h.toPermits _
  | (_, e) :: rest =>
      (changes_eval h e).bind h.toPermits fun _ =>
        (changes_evalEntries h rest).bind h.toPermits fun _ => .pure h.toPermits _

end

theorem changes_evalSource (h : Allows R may host scope) (source : String) :
    Changes R may (evalSource host scope source) := by
  unfold evalSource
  split
  · exact changes_eval h _
  · exact .reads h.toPermits fun _ => .error rfl

theorem changes_textOfSource (h : Allows R may host scope) (source : String) :
    Changes R may (textOfSource host scope source) :=
  (changes_evalSource h source).bind h.toPermits fun v =>
    .reads h.toPermits fun σ => σ.tells_outputText v

/-! # Failing evaluations -/

theorem allows_raises (host : Host) (scope : Nat) :
    Allows (fun _ _ => True) (fun failure => failure.IsTold ∨ host.Raises failure) host scope where
  refl _ := trivial
  trans _ _ := trivial
  told _ := .inl
  marks _ := trivial
  record _ _ := trivial
  binds _ _ _ _ _ _ := trivial
  rewrites _ _ _ _ _ _ := trivial
  raised _ := .inr

theorem escapes_of_changes {action : Evaluation α}
    (h : Changes (fun _ _ => True) (fun failure => failure.IsTold ∨ host.Raises failure) action)
    {σ : Store} {failure again : Failure} (hfailure : (action σ).1 = .error failure)
    (hagain : failure.told = .error again) : host.Escapes again := by
  rcases (h σ).2 failure hfailure with htold | hraised
  · cases htold.symm.trans hagain
  · exact ⟨failure, hraised, hagain⟩

end Evaluation

end Stencil
