import Stencil.Call.Builtin

/-!
# What has a text

A document is written part by part. What may have no text are its numbers that are not whole and
the keys of its objects, at any depth. The document has a text exactly if all of these have one,
and otherwise fails as one of them does. The helper that writes values may be asked for a step of
indentation that there is none of.
-/

namespace Stencil
namespace Json

section Write

variable {style : JsonStyle} {failure : Failure}

mutual

def texts (style : JsonStyle) : Document → List (Except Failure Text)
  | .float x => [floatText style x]
  | .list items => textsOfItems style items
  | .object entries => textsOfEntries style entries
  | _ => []

def textsOfItems (style : JsonStyle) : List Document → List (Except Failure Text)
  | [] => []
  | d :: rest => texts style d ++ textsOfItems style rest

def textsOfEntries (style : JsonStyle) : List (Key × Document) → List (Except Failure Text)
  | [] => []
  | (key, d) :: rest => keyText style key :: (texts style d ++ textsOfEntries style rest)

end

theorem mem_textsOfItems {items : List Document} {x : Except Failure Text} :
    x ∈ textsOfItems style items ↔ ∃ d ∈ items, x ∈ texts style d := by
  induction items with
  | nil => simp [textsOfItems]
  | cons d rest ih => simp [textsOfItems, ih]

theorem mem_textsOfEntries {entries : List (Key × Document)} {x : Except Failure Text} :
    x ∈ textsOfEntries style entries ↔
      ∃ entry ∈ entries, x = keyText style entry.1 ∨ x ∈ texts style entry.2 := by
  induction entries with
  | nil => simp [textsOfEntries]
  | cons entry rest ih =>
      rcases entry with ⟨key, d⟩
      simp [textsOfEntries, ih, or_assoc]

/-! # Texts of all parts -/

def AllThere (all : List (Except Failure Text)) : Prop :=
  ∀ x ∈ all, ∃ t, x = .ok t

theorem allThere_nil : AllThere [] :=
  List.forall_mem_nil _

theorem allThere_append {all more : List (Except Failure Text)} :
    AllThere (all ++ more) ↔ AllThere all ∧ AllThere more :=
  List.forall_mem_append

theorem allThere_cons {x : Except Failure Text} {all : List (Except Failure Text)} :
    AllThere (x :: all) ↔ (∃ t, x = .ok t) ∧ AllThere all :=
  List.forall_mem_cons

/-- A text is there if all of its parts' texts are, and is missing as one of them is. -/
inductive Reports (all : List (Except Failure Text)) (x : Except Failure Text) : Prop where
  | ok (t : Text) (ht : x = .ok t) (h : AllThere all)
  | error (failure : Failure) (hfailure : x = .error failure) (h : .error failure ∈ all)

section Reports

variable {all more : List (Except Failure Text)} {x : Except Failure Text}

theorem reports_ok (t : Text) : Reports [] (.ok t) :=
  .ok t rfl allThere_nil

theorem reports_self (x : Except Failure Text) : Reports [x] x := by
  cases x with
  | ok t => exact .ok t rfl (allThere_cons.mpr ⟨⟨t, rfl⟩, allThere_nil⟩)
  | error failure => exact .error failure rfl List.mem_cons_self

theorem Reports.bind {next : Text → Except Failure Text} (hx : Reports all x)
    (hnext : ∀ t, Reports more (next t)) : Reports (all ++ more) (x >>= next) := by
  rcases hx with ⟨t, rfl, hall⟩ | ⟨failure, rfl, hmem⟩
  · rcases hnext t with ⟨u, hu, hmore⟩ | ⟨failure, hfailure, hmem⟩
    · exact .ok u hu (allThere_append.mpr ⟨hall, hmore⟩)
    · exact .error failure hfailure (List.mem_append_right _ hmem)
  · exact .error failure rfl (List.mem_append_left _ hmem)

theorem Reports.wrap (hx : Reports all x) (f : Text → Text) :
    Reports all (do return f (← x)) := by
  rcases hx with ⟨t, rfl, hall⟩ | ⟨failure, rfl, hmem⟩
  · exact .ok (f t) rfl hall
  · exact .error failure rfl hmem

theorem Reports.exists_of_allThere (hx : Reports all x) (h : AllThere all) : ∃ t, x = .ok t := by
  rcases hx with ⟨t, ht, -⟩ | ⟨failure, -, hmem⟩
  · exact ⟨t, ht⟩
  · rcases h _ hmem with ⟨t, ht⟩
    cases ht

theorem Reports.mem_of_error (hx : Reports all x) (h : x = .error failure) :
    .error failure ∈ all := by
  rcases hx with ⟨t, ht, -⟩ | ⟨other, hother, hmem⟩
  · cases h.symm.trans ht
  · cases h.symm.trans hother
    exact hmem

end Reports

mutual

theorem reports_write : (d : Document) → (depth : Nat) →
    Reports (texts style d) (write style depth d)
  | .null, depth => reports_ok _
  | .bool b, depth => reports_ok _
  | .int n, depth => reports_ok _
  | .float x, depth => reports_self _
  | .str s, depth => reports_ok _
  | .list [], depth => reports_ok _
  | .list (first :: rest), depth => by
      rw [texts, textsOfItems, write]
      exact (reports_write first _).bind fun _ => (reports_writeItems rest _).wrap _
  | .object [], depth => reports_ok _
  | .object ((key, first) :: rest), depth => by
      rw [texts, textsOfEntries, write]
      exact (reports_self (keyText style key)).bind fun _ =>
        (reports_write first _).bind fun _ => (reports_writeEntries rest _).wrap _

theorem reports_writeItems : (items : List Document) → (depth : Nat) →
    Reports (textsOfItems style items) (writeItems style depth items)
  | [], depth => reports_ok _
  | d :: rest, depth => by
      rw [textsOfItems, writeItems]
      exact (reports_write d _).bind fun _ => (reports_writeItems rest _).wrap _

theorem reports_writeEntries : (entries : List (Key × Document)) → (depth : Nat) →
    Reports (textsOfEntries style entries) (writeEntries style depth entries)
  | [], depth => reports_ok _
  | (key, d) :: rest, depth => by
      rw [textsOfEntries, writeEntries]
      exact (reports_self (keyText style key)).bind fun _ =>
        (reports_write d _).bind fun _ => (reports_writeEntries rest _).wrap _

end

variable (style) in
theorem reports_text (d : Document) : Reports (texts style d) (text style d) :=
  reports_write d 0

/-! # What has no text -/

theorem floatText_eq_error {x : Binary64} (h : floatText style x = .error failure) :
    failure = .unwritableNumber := by
  rw [floatText] at h
  split at h
  · cases h
  · split at h <;> cases h
    rfl

theorem keyText_eq_error {key : Key} (h : keyText style key = .error failure) :
    failure = .unwritableNumber ∨ failure = .unwritableKey := by
  cases key with
  | float x => exact .inl (floatText_eq_error h)
  | undefined =>
      cases h
      exact .inr rfl
  | callable f =>
      cases h
      exact .inr rfl
  | _ => cases h

mutual

theorem failure_of_mem_texts : (d : Document) → .error failure ∈ texts style d →
    failure = .unwritableNumber ∨ failure = .unwritableKey
  | .float _, h => .inl (floatText_eq_error (List.mem_singleton.mp h).symm)
  | .list items, h => failure_of_mem_items items h
  | .object entries, h => failure_of_mem_entries entries h

theorem failure_of_mem_items : (items : List Document) →
    .error failure ∈ textsOfItems style items →
      failure = .unwritableNumber ∨ failure = .unwritableKey
  | d :: rest, h =>
      (List.mem_append.mp h).elim (failure_of_mem_texts d) (failure_of_mem_items rest)

theorem failure_of_mem_entries : (entries : List (Key × Document)) →
    .error failure ∈ textsOfEntries style entries →
      failure = .unwritableNumber ∨ failure = .unwritableKey
  | (_, d) :: rest, h =>
      (List.mem_cons.mp h).elim (fun hkey => keyText_eq_error hkey.symm) fun hrest =>
        (List.mem_append.mp hrest).elim (failure_of_mem_texts d) (failure_of_mem_entries rest)

end

end Write

end Json

/-! # Steps of indentation -/

namespace Builtin

theorem indentStep_cases (space : Value) :
    (space = .float (.infinity false) ∧ indentStep space = .error (.arithmetic .tooLarge)) ∨
      (space ≠ .float (.infinity false) ∧
        ∃ indent, indentStep space = .ok indent ∧ ∀ step ∈ indent, step ≤ maxIndent) := by
  cases space with
  | int n =>
      refine .inr ⟨by simp, _, rfl, ?_⟩
      intro step hstep
      split at hstep
      · cases hstep
        exact Nat.min_le_right _ _
      · cases hstep
  | float x =>
      cases x with
      | nan mark => exact .inr ⟨by simp, none, rfl, by simp⟩
      | infinity negative =>
          cases negative with
          | true => exact .inr ⟨by simp, none, rfl, by simp⟩
          | false => exact .inl ⟨rfl, rfl⟩
      | finite negative rank =>
          refine .inr ⟨by simp, ?_⟩
          rw [indentStep]
          split
          · exact ⟨none, rfl, by simp⟩
          · refine ⟨some (min _ maxIndent), rfl, ?_⟩
            intro step hstep
            cases hstep
            exact Nat.min_le_right _ _
  | _ => exact .inr ⟨by simp, none, rfl, by simp⟩

theorem stringifyValue_of_indentStep {σ : Store} {v space : Value} {indent : Option Nat}
    (hwritten : (v.isUndefined || v.isCallable) = false) (hindent : indentStep space = .ok indent) :
    stringifyValue σ v space = (σ.jsonText (styleFor indent) v).map .str := by
  rw [stringifyValue, hwritten, if_neg Bool.false_ne_true, hindent]
  show (do return Value.str (← σ.jsonText (styleFor indent) v)) = _
  cases σ.jsonText (styleFor indent) v <;> rfl

end Builtin
end Stencil
