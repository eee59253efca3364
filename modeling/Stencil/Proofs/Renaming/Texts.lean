import Stencil.Json.Reader
import Stencil.Proofs.Expression.Rows
import Stencil.Proofs.Renaming.Store

/-!
# What texts can name

Marks are given out by renders. No text names one: neither the literals of an expression nor the
values of a JSON text have a mark of their own, so every renaming leaves them as they are.
-/

namespace Stencil

variable {ρ : Renaming} {e : Extent}

/-! # Numbers in texts -/

namespace Binary64

/-- Whether a double has no mark, or the one that nobody has kept. -/
def Unmarked : Binary64 → Prop
  | nan mark => mark = 0
  | _ => True

theorem Unmarked.marked {x : Binary64} (h : x.Unmarked) (e : Extent) : x.Marked e := by
  cases x with
  | nan mark => exact .inl h
  | _ => trivial

theorem Unmarked.rename_eq {x : Binary64} (h : x.Unmarked) (ρ : Renaming) : x.rename ρ = x := by
  cases x with
  | nan mark =>
      rw [show mark = 0 from h, rename, ρ.mark_zero]
  | _ => rfl

theorem Unmarked.renamed {x : Binary64} (h : x.Unmarked) (ρ : Renaming) (e : Extent) :
    Value.Renamed ρ e (.float x) (.float x) := by
  have hself := Value.Renamed.float (ρ := ρ) (h.marked e)
  rwa [h.rename_eq ρ] at hself

theorem unmarked_ofRank (negative : Bool) (rank : Nat) : (ofRank negative rank).Unmarked := by
  unfold ofRank
  split <;> trivial

end Binary64

theorem Decimal.unmarked_toBinary (negative : Bool) (d : Decimal) :
    (d.toBinary negative).Unmarked := by
  unfold Decimal.toBinary
  split
  · trivial
  · split
    · trivial
    · split
      · trivial
      · exact Binary64.unmarked_ofRank _ _

theorem NumberText.unmarked_toBinary (cs : List Char) : (NumberText.toBinary cs).Unmarked := by
  unfold NumberText.toBinary
  split
  · exact Decimal.unmarked_toBinary _ _
  · rfl

/-! # Literals -/

def Literal.Unmarked : Literal → Prop
  | .float x => x.Unmarked
  | _ => True

theorem Literal.Unmarked.renamed {literal : Literal} (h : literal.Unmarked) (ρ : Renaming)
    (e : Extent) : Value.Renamed ρ e (.ofLiteral literal) (.ofLiteral literal) := by
  cases literal with
  | float x => exact Binary64.Unmarked.renamed h ρ e
  | _ => exact .constant rfl

namespace Expr

mutual

def Unmarked : Expr → Prop
  | .literal value => value.Unmarked
  | .name _ => True
  | .this => True
  | .member target key => target.Unmarked ∧ key.Unmarked
  | .call callee args => callee.Unmarked ∧ UnmarkedList args
  | .unary _ operand => operand.Unmarked
  | .binary _ left right => left.Unmarked ∧ right.Unmarked
  | .logical _ left right => left.Unmarked ∧ right.Unmarked
  | .conditional test yes no => test.Unmarked ∧ yes.Unmarked ∧ no.Unmarked
  | .array items => UnmarkedList items
  | .object entries => UnmarkedEntries entries

def UnmarkedList : List Expr → Prop
  | [] => True
  | first :: rest => first.Unmarked ∧ UnmarkedList rest

def UnmarkedEntries : List (Text × Expr) → Prop
  | [] => True
  | (_, first) :: rest => first.Unmarked ∧ UnmarkedEntries rest

end

theorem unmarked_ofNumber (text : String) : (ofNumber text).Unmarked := by
  unfold ofNumber
  dsimp only
  split
  · exact NumberText.unmarked_toBinary _
  · trivial

theorem unmarked_ofWord (word : String) : (ofWord word).Unmarked := by
  unfold ofWord
  split <;> trivial

end Expr

namespace Grammar

def Phrase.Unmarked : Phrase → Prop
  | .expr _ tree => tree.Unmarked
  | .list trees => Expr.UnmarkedList trees
  | .entry _ tree => tree.Unmarked
  | .entries pairs => Expr.UnmarkedEntries pairs

theorem Joins.unmarked {rank : Rank} {sign : String} {join : Expr → Expr → Expr}
    (h : Joins rank sign join) {left right : Expr} (hleft : left.Unmarked)
    (hright : right.Unmarked) : (join left right).Unmarked := by
  cases h <;> exact ⟨hleft, hright⟩

theorem Derives.unmarked {phrase : Phrase} {tokens : List Token} (h : Derives phrase tokens) :
    phrase.Unmarked := by
  induction h with
  | tighter _ _ ih => exact ih
  | choice _ _ _ _ _ htest hyes hno => exact ⟨htest, hyes, hno⟩
  | joined hjoins _ _ _ _ hleft hright => exact hjoins.unmarked hleft hright
  | preceded _ _ _ ih => exact ih
  | property _ _ _ ih => exact ⟨ih, trivial⟩
  | subscript _ _ _ _ htarget hkey => exact ⟨htarget, hkey⟩
  | call _ _ _ _ hcallee hargs => exact ⟨hcallee, hargs⟩
  | number _ => exact Expr.unmarked_ofNumber _
  | string _ => trivial
  | word _ => exact Expr.unmarked_ofWord _
  | group _ _ _ ih => exact ih
  | array _ _ _ ih => exact ih
  | object _ _ _ ih => exact ih
  | noItem => trivial
  | lastItem _ ih => exact ⟨ih, trivial⟩
  | items _ _ _ hfirst hrest => exact ⟨hfirst, hrest⟩
  | pair _ _ _ ih => exact ih
  | shorthand _ => trivial
  | noEntry => trivial
  | lastEntry _ ih => exact ⟨ih, trivial⟩
  | entries _ _ _ hfirst hrest => exact ⟨hfirst, hrest⟩

theorem unmarked_of_compile {source : String} {tree : Expr} (h : Expr.compile source = .ok tree) :
    tree.Unmarked := by
  cases htokens : tokenize (Text.strip source) with
  | error failure =>
      rw [Expr.compile, htokens] at h
      cases h
  | ok tokens => exact ((compile_eq_ok_iff htokens tree).mp h).unmarked

end Grammar

/-! # JSON -/

namespace Json

def IsFixed (d : Document) : Prop :=
  ∀ ρ e, Value.Renamed ρ e (.ofDocument d) (.ofDocument d)

theorem isFixed_list {items : List Document} (h : ∀ d ∈ items, IsFixed d) :
    IsFixed (.list items) := by
  intro ρ e
  rw [Value.ofDocument]
  apply Value.Renamed.ofItems
  induction items with
  | nil => exact .nil
  | cons d rest ih =>
      rw [Value.ofDocuments]
      exact .cons (h d List.mem_cons_self ρ e) (ih fun d hd => h d (List.mem_cons_of_mem _ hd))

def IsFixedEntry (entry : Key × Document) : Prop :=
  (∃ name, entry.1 = .str name) ∧ IsFixed entry.2

theorem isFixed_object {entries : List (Key × Document)}
    (h : ∀ entry ∈ entries, IsFixedEntry entry) : IsFixed (.object entries) := by
  intro ρ e
  rw [Value.ofDocument]
  apply Value.Renamed.ofEntries
  apply Entries.Renamed.ofPairs
  induction entries with
  | nil => exact .nil
  | cons entry rest ih =>
      rcases entry with ⟨key, d⟩
      rcases h _ List.mem_cons_self with ⟨⟨name, hname⟩, hd⟩
      simp only at hname
      subst hname
      rw [Value.ofEntries]
      exact .cons ⟨Key.renamed_str ρ e name, hd ρ e⟩
        (ih fun entry hentry => h entry (List.mem_cons_of_mem _ hentry))

theorem isFixed_float {x : Binary64} (h : x.Unmarked) : IsFixed (.float x) :=
  fun ρ e => h.renamed ρ e

theorem isFixed_readMagnitude {negative : Bool} {points rest : List CodePoint} {d : Document}
    (h : readMagnitude negative points = some (d, rest)) : IsFixed d := by
  unfold readMagnitude at h
  dsimp only at h
  repeat' split at h
  all_goals cases h
  all_goals first
    | exact fun _ _ => .constant rfl
    | exact isFixed_float (Decimal.unmarked_toBinary _ _)

theorem isFixed_readNumber {points rest : List CodePoint} {d : Document}
    (h : readNumber points = some (d, rest)) : IsFixed d := by
  unfold readNumber at h
  split at h
  · split at h
    · cases h
      exact isFixed_float trivial
    · exact isFixed_readMagnitude h
  · exact isFixed_readMagnitude h

theorem isFixed_words : ∀ word ∈ words, IsFixed word.2 := by
  simp only [words, List.forall_mem_cons, List.not_mem_nil, false_imp_iff, implies_true, and_true]
  exact ⟨fun _ _ => .constant rfl, fun _ _ => .constant rfl, fun _ _ => .constant rfl,
    isFixed_float rfl, isFixed_float trivial⟩

theorem isFixed_readWord? {points rest : List CodePoint} {d : Document}
    (h : readWord? points = some (d, rest)) : IsFixed d := by
  rcases List.exists_of_findSome?_eq_some h with ⟨word, hword, hfound⟩
  rcases Option.map_eq_some_iff.mp hfound with ⟨beyond, _, heq⟩
  cases heq
  exact isFixed_words word hword

structure FixedWithin (budget : Nat) : Prop where
  value : ∀ points d rest, readValue budget points = some (d, rest) → IsFixed d
  items : ∀ points items rest, readItems budget points = some (items, rest) →
    ∀ d ∈ items, IsFixed d
  members : ∀ points entries rest, readMembers budget points = some (entries, rest) →
    ∀ entry ∈ entries, IsFixedEntry entry
  member : ∀ points entry rest, readMember budget points = some (entry, rest) →
    IsFixedEntry entry

section Steps

variable {budget : Nat} (h : FixedWithin budget)

include h

theorem FixedWithin.value_succ {points rest : List CodePoint} {d : Document}
    (hread : readValue (budget + 1) points = some (d, rest)) : IsFixed d := by
  cases points with
  | nil => cases hread
  | cons p points =>
      rw [readValue] at hread
      split at hread
      · rcases Option.map_eq_some_iff.mp hread with ⟨r, _, heq⟩
        cases heq
        exact fun _ _ => .constant rfl
      · split at hread
        · split at hread
          · cases hread
            exact isFixed_list fun _ hmem => absurd hmem List.not_mem_nil
          · rcases Option.map_eq_some_iff.mp hread with ⟨r, hitems, heq⟩
            cases heq
            exact isFixed_list (h.items _ _ _ hitems)
        · split at hread
          · split at hread
            · cases hread
              exact isFixed_object fun _ hmem => absurd hmem List.not_mem_nil
            · rcases Option.map_eq_some_iff.mp hread with ⟨r, hmembers, heq⟩
              cases heq
              exact isFixed_object (h.members _ _ _ hmembers)
          · split at hread
            · rename_i found hword
              cases hread
              exact isFixed_readWord? hword
            · exact isFixed_readNumber hread

theorem FixedWithin.items_succ {points rest : List CodePoint} {items : List Document}
    (hread : readItems (budget + 1) points = some (items, rest)) : ∀ d ∈ items, IsFixed d := by
  rw [readItems] at hread
  split at hread
  · cases hread
  next first after hfirst =>
      have hhead := h.value _ _ _ hfirst
      split at hread
      · cases hread
        exact fun d hd => (List.mem_singleton.mp hd) ▸ hhead
      · rcases Option.map_eq_some_iff.mp hread with ⟨r, hitems, heq⟩
        cases heq
        exact List.forall_mem_cons.mpr ⟨hhead, h.items _ _ _ hitems⟩
      · cases hread

theorem FixedWithin.members_succ {points rest : List CodePoint}
    {entries : List (Key × Document)}
    (hread : readMembers (budget + 1) points = some (entries, rest)) :
    ∀ entry ∈ entries, IsFixedEntry entry := by
  rw [readMembers] at hread
  split at hread
  · cases hread
  next first after hfirst =>
      have hhead := h.member _ _ _ hfirst
      split at hread
      · cases hread
        exact fun entry hentry => (List.mem_singleton.mp hentry) ▸ hhead
      · rcases Option.map_eq_some_iff.mp hread with ⟨r, hmembers, heq⟩
        cases heq
        exact List.forall_mem_cons.mpr ⟨hhead, h.members _ _ _ hmembers⟩
      · cases hread

theorem FixedWithin.member_succ {points rest : List CodePoint} {entry : Key × Document}
    (hread : readMember (budget + 1) points = some (entry, rest)) : IsFixedEntry entry := by
  unfold readMember at hread
  split at hread
  · split at hread
    · cases hread
    · split at hread
      · rcases Option.map_eq_some_iff.mp hread with ⟨r, hvalue, heq⟩
        cases heq
        exact ⟨⟨_, rfl⟩, h.value _ _ _ hvalue⟩
      · cases hread
  · cases hread

end Steps

theorem fixedWithin (budget : Nat) : FixedWithin budget := by
  induction budget with
  | zero =>
      constructor
      · intro points d rest hread
        cases hread
      · intro points items rest hread
        cases hread
      · intro points entries rest hread
        cases hread
      · intro points entry rest hread
        cases hread
  | succ budget ih =>
      exact ⟨fun _ _ _ => ih.value_succ, fun _ _ _ => ih.items_succ, fun _ _ _ => ih.members_succ,
        fun _ _ _ => ih.member_succ⟩

theorem isFixed_of_read? {text : Text} {d : Document} (h : read? text = some d) : IsFixed d := by
  unfold read? at h
  split at h
  next found rest hread =>
      split at h
      · cases h
        exact (fixedWithin _).value _ _ _ hread
      · cases h
  · cases h

end Json
end Stencil
