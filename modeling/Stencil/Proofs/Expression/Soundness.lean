import Stencil.Proofs.Expression.Grammar
import Stencil.Proofs.Outcome

/-!
# The reader follows the grammar

Whatever the reader takes from a row of tokens derives the tree it returns. The
proof goes by the budget. One structure gathers what the functions of the reader
promise within a budget, and each function has a lemma that adds one to it.
-/

namespace Stencil
namespace Grammar

open Stencil.Expr

/-! # Single tokens -/

theorem isOperator_iff {token : Token} {sign : String} :
    Token.isOperator token sign = true ↔ IsSign token sign := by
  simp [Token.isOperator, IsSign]

theorem accept?_cons {token : Token} {sign : String} (h : IsSign token sign)
    (rest : List Token) :
    accept? sign (token :: rest) = some rest := by
  simp [accept?, isOperator_iff.mpr h]

theorem exists_of_accept? {sign : String} {tokens rest : List Token}
    (h : accept? sign tokens = some rest) :
    ∃ token, tokens = token :: rest ∧ IsSign token sign := by
  cases tokens with
  | nil => cases h
  | cons token others =>
      simp only [accept?] at h
      split at h
      · rename_i hsign
        cases h
        exact ⟨token, rfl, isOperator_iff.mp hsign⟩
      · cases h

theorem exists_of_acceptOf? {signOf : α → String} {ops : List α} {op : α}
    {tokens rest : List Token} (h : acceptOf? signOf ops tokens = some (op, rest)) :
    op ∈ ops ∧ ∃ token, tokens = token :: rest ∧ IsSign token (signOf op) := by
  rcases List.exists_of_findSome?_eq_some h with ⟨found, hmem, hfound⟩
  rcases Option.map_eq_some_iff.mp hfound with ⟨after, hafter, heq⟩
  cases heq
  exact ⟨hmem, exists_of_accept? hafter⟩

theorem exists_of_expect {sign : String} {tokens rest : List Token}
    (h : expect sign tokens = .ok rest) :
    ∃ token, tokens = token :: rest ∧ IsSign token sign := by
  unfold expect at h
  split at h
  · rename_i after haccept
    cases h
    exact exists_of_accept? haccept
  · cases h
  · cases h

/-! # Tiers and ranks -/

/-- The tiers that the reader still has to read for a rank. -/
inductive TiersOf : Rank → List Tier → Prop where
  | or : TiersOf .or tiers
  | and : TiersOf .and (tiers.drop 1)
  | equality : TiersOf .equality (tiers.drop 2)
  | relational : TiersOf .relational (tiers.drop 3)
  | additive : TiersOf .additive (tiers.drop 4)
  | multiplicative : TiersOf .multiplicative (tiers.drop 5)
  | unary : TiersOf .unary (tiers.drop 6)

theorem TiersOf.eq_unary {rank : Rank} (h : TiersOf rank []) : rank = .unary := by
  generalize hlower : ([] : List Tier) = lower at h
  cases h <;> first | rfl | cases hlower

theorem TiersOf.exists_next {rank : Rank} {ops : Tier} {lower : List Tier}
    (h : TiersOf rank (ops :: lower)) :
    ∃ next, rank.next? = some next ∧ TiersOf next lower ∧
      ∀ op ∈ ops, Joins rank op.sign op.join := by
  generalize hall : ops :: lower = all at h
  cases h with
  | or =>
      cases hall
      refine ⟨.and, rfl, .and, ?_⟩
      simp only [List.forall_mem_singleton]
      exact .or
  | and =>
      cases hall
      refine ⟨.equality, rfl, .equality, ?_⟩
      simp only [List.forall_mem_singleton]
      exact .and
  | equality =>
      cases hall
      refine ⟨.relational, rfl, .relational, ?_⟩
      simp only [List.forall_mem_cons]
      exact ⟨.looseEqual, .looseUnequal, .strictEqual, .strictUnequal, by simp⟩
  | relational =>
      cases hall
      refine ⟨.additive, rfl, .additive, ?_⟩
      simp only [List.map_cons, List.map_nil, List.forall_mem_cons]
      exact ⟨.lt, .le, .gt, .ge, by simp⟩
  | additive =>
      cases hall
      refine ⟨.multiplicative, rfl, .multiplicative, ?_⟩
      simp only [List.map_cons, List.map_nil, List.forall_mem_cons]
      exact ⟨.add, .sub, by simp⟩
  | multiplicative =>
      cases hall
      refine ⟨.unary, rfl, .unary, ?_⟩
      simp only [List.map_cons, List.map_nil, List.forall_mem_cons]
      exact ⟨.mul, .div, .rem, by simp⟩
  | unary => cases hall

theorem precedes_sign (op : UnaryOp) : Precedes op.sign op := by
  cases op with
  | not => exact .not
  | minus => exact .minus
  | plus => exact .plus

/-! # Keys of entries -/

theorem keys_of_entryKey? {token : Token} {key : EntryKey} (h : entryKey? token = some key) :
    Keys token key.text := by
  unfold entryKey? at h
  split at h
  · rename_i hkind
    cases h
    exact .word hkind
  · rename_i hkind
    cases h
    exact .quoted hkind
  · rename_i hkind
    cases h
    exact .numeral hkind
  · cases h

theorem eq_text_of_entryKey? {token : Token} {text : String}
    (h : entryKey? token = some (.word text)) :
    token.kind = .name ∧ token.text = text := by
  unfold entryKey? at h
  split at h
  · rename_i hkind
    cases h
    exact ⟨hkind, rfl⟩
  · cases h
  · cases h
  · cases h

/-! # What the reader promises -/

def Reads (phrase : Phrase) (tokens rest : List Token) : Prop :=
  ∃ taken, tokens = taken ++ rest ∧ Derives phrase taken

def Completes (phrase : Phrase) (before tokens rest : List Token) : Prop :=
  ∃ taken, tokens = taken ++ rest ∧ Derives phrase (before ++ taken)

/-- What has been taken derives a phrase, up to a closing sign that has been taken too. -/
def ReadsUntil (closer : String) (phrase : Phrase) (tokens rest : List Token) : Prop :=
  ∃ inner closing, tokens = inner ++ closing :: rest ∧ IsSign closing closer ∧
    Derives phrase inner

structure SoundWithin (budget : Nat) : Prop where
  conditional {tokens rest : List Token} {tree : Expr} :
    readConditional budget tokens = .ok (tree, rest) →
    Reads (.expr .conditional tree) tokens rest
  tier {rank : Rank} {lower : List Tier} {tokens rest : List Token} {tree : Expr} :
    TiersOf rank lower →
    readTier budget lower tokens = .ok (tree, rest) →
    Reads (.expr rank tree) tokens rest
  chain {rank : Rank} {ops : Tier} {lower : List Tier} {left tree : Expr}
      {before tokens rest : List Token} :
    TiersOf rank (ops :: lower) →
    Derives (.expr rank left) before →
    readChain budget ops lower left tokens = .ok (tree, rest) →
    Completes (.expr rank tree) before tokens rest
  unary {tokens rest : List Token} {tree : Expr} :
    readUnary budget tokens = .ok (tree, rest) →
    Reads (.expr .unary tree) tokens rest
  suffixes {target tree : Expr} {before tokens rest : List Token} :
    Derives (.expr .suffixed target) before →
    readSuffixes budget target tokens = .ok (tree, rest) →
    Completes (.expr .suffixed tree) before tokens rest
  list {closer : String} {tokens rest : List Token} {trees : List Expr} :
    readList budget closer tokens = .ok (trees, rest) →
    ReadsUntil closer (.list trees) tokens rest
  primary {tokens rest : List Token} {tree : Expr} :
    readPrimary budget tokens = .ok (tree, rest) →
    Reads (.expr .primary tree) tokens rest
  entries {tokens rest : List Token} {pairs : List (Text × Expr)} :
    readEntries budget tokens = .ok (pairs, rest) →
    ReadsUntil "\x7d" (.entries pairs) tokens rest
  entry {tokens rest : List Token} {key : Text} {tree : Expr} :
    readEntry budget tokens = .ok ((key, tree), rest) →
    Reads (.entry key tree) tokens rest

section Step

variable {budget : Nat} (ih : SoundWithin budget)

include ih

theorem SoundWithin.conditional_succ {tokens rest : List Token} {tree : Expr}
    (h : readConditional (budget + 1) tokens = .ok (tree, rest)) :
    Reads (.expr .conditional tree) tokens rest := by
  rw [readConditional] at h
  rw [bind_eq_ok_iff] at h
  rcases h with ⟨⟨test, afterTest⟩, htest, h⟩
  rcases ih.tier .or htest with ⟨before, rfl, hbefore⟩
  dsimp only at h
  split at h
  · cases h
    exact ⟨before, rfl, .tighter rfl hbefore⟩
  · rename_i afterQuestion hquestion
    rcases exists_of_accept? hquestion with ⟨question, rfl, hquestionSign⟩
    rw [bind_eq_ok_iff] at h
    rcases h with ⟨⟨yes, afterYes⟩, hyes, h⟩
    rcases ih.conditional hyes with ⟨between, rfl, hbetween⟩
    rw [bind_eq_ok_iff] at h
    rcases h with ⟨afterColon, hcolon, h⟩
    rcases exists_of_expect hcolon with ⟨colon, rfl, hcolonSign⟩
    rw [bind_eq_ok_iff] at h
    rcases h with ⟨⟨no, afterNo⟩, hno, h⟩
    rcases ih.conditional hno with ⟨after, rfl, hafter⟩
    cases h
    refine ⟨before ++ question :: (between ++ colon :: after), by simp, ?_⟩
    exact .choice hbefore hquestionSign hbetween hcolonSign hafter

theorem SoundWithin.tier_succ {rank : Rank} {lower : List Tier} {tokens rest : List Token}
    {tree : Expr} (hrank : TiersOf rank lower)
    (h : readTier (budget + 1) lower tokens = .ok (tree, rest)) :
    Reads (.expr rank tree) tokens rest := by
  cases lower with
  | nil =>
      rw [readTier] at h
      rw [hrank.eq_unary]
      exact ih.unary h
  | cons ops lower =>
      rw [readTier] at h
      rw [bind_eq_ok_iff] at h
      rcases h with ⟨⟨first, afterFirst⟩, hfirst, h⟩
      rcases hrank.exists_next with ⟨next, hnext, hlower, _⟩
      rcases ih.tier hlower hfirst with ⟨before, rfl, hbefore⟩
      rcases ih.chain hrank (.tighter hnext hbefore) h with ⟨taken, rfl, htaken⟩
      exact ⟨before ++ taken, by simp, htaken⟩

theorem SoundWithin.chain_succ {rank : Rank} {ops : Tier} {lower : List Tier} {left tree : Expr}
    {before tokens rest : List Token} (hrank : TiersOf rank (ops :: lower))
    (hleft : Derives (.expr rank left) before)
    (h : readChain (budget + 1) ops lower left tokens = .ok (tree, rest)) :
    Completes (.expr rank tree) before tokens rest := by
  rw [readChain] at h
  split at h
  · cases h
    exact ⟨[], rfl, by simpa using hleft⟩
  · rename_i op afterOp haccept
    rcases exists_of_acceptOf? haccept with ⟨hop, operator, rfl, hsign⟩
    rcases hrank.exists_next with ⟨next, hnext, hlower, hjoins⟩
    rw [bind_eq_ok_iff] at h
    rcases h with ⟨⟨right, afterRight⟩, hright, h⟩
    rcases ih.tier hlower hright with ⟨operand, rfl, hoperand⟩
    have hjoined := Derives.joined (hjoins op hop) hnext hleft hsign hoperand
    rcases ih.chain hrank hjoined h with ⟨taken, rfl, htaken⟩
    exact ⟨operator :: (operand ++ taken), by simp, by simpa using htaken⟩

theorem SoundWithin.unary_succ {tokens rest : List Token} {tree : Expr}
    (h : readUnary (budget + 1) tokens = .ok (tree, rest)) :
    Reads (.expr .unary tree) tokens rest := by
  rw [readUnary] at h
  split at h
  · rename_i op afterOp haccept
    rcases exists_of_acceptOf? haccept with ⟨_, operator, rfl, hsign⟩
    rw [bind_eq_ok_iff] at h
    rcases h with ⟨⟨operand, afterOperand⟩, hoperand, h⟩
    rcases ih.unary hoperand with ⟨after, rfl, hafter⟩
    cases h
    exact ⟨operator :: after, rfl, .preceded (precedes_sign op) hsign hafter⟩
  · rw [bind_eq_ok_iff] at h
    rcases h with ⟨⟨first, afterFirst⟩, hfirst, h⟩
    rcases ih.primary hfirst with ⟨before, rfl, hbefore⟩
    rcases ih.suffixes (.tighter rfl hbefore) h with ⟨taken, rfl, htaken⟩
    exact ⟨before ++ taken, by simp, .tighter rfl htaken⟩

theorem SoundWithin.suffixes_succ {target tree : Expr} {before tokens rest : List Token}
    (htarget : Derives (.expr .suffixed target) before)
    (h : readSuffixes (budget + 1) target tokens = .ok (tree, rest)) :
    Completes (.expr .suffixed tree) before tokens rest := by
  rw [readSuffixes] at h
  split at h
  · rename_i afterDot hdot
    rcases exists_of_accept? hdot with ⟨dot, rfl, hdotSign⟩
    split at h
    · rename_i word afterWord
      split at h
      · rename_i hname
        have hproperty := Derives.property htarget hdotSign (by simpa using hname)
        rcases ih.suffixes hproperty h with ⟨taken, rfl, htaken⟩
        exact ⟨dot :: word :: taken, rfl, by simpa using htaken⟩
      · cases h
    · cases h
  · rename_i afterOpening hopening _
    rcases exists_of_accept? hopening with ⟨opening, rfl, hopeningSign⟩
    rw [bind_eq_ok_iff] at h
    rcases h with ⟨⟨key, afterKey⟩, hkey, h⟩
    rcases ih.conditional hkey with ⟨inner, rfl, hinner⟩
    rw [bind_eq_ok_iff] at h
    rcases h with ⟨afterClosing, hclosing, h⟩
    rcases exists_of_expect hclosing with ⟨closing, rfl, hclosingSign⟩
    have hsubscript := Derives.subscript htarget hopeningSign hinner hclosingSign
    rcases ih.suffixes hsubscript h with ⟨taken, rfl, htaken⟩
    exact ⟨opening :: (inner ++ closing :: taken), by simp, by simpa using htaken⟩
  · rename_i afterOpening hopening _ _
    rcases exists_of_accept? hopening with ⟨opening, rfl, hopeningSign⟩
    rw [bind_eq_ok_iff] at h
    rcases h with ⟨⟨args, afterArgs⟩, hargs, h⟩
    rcases ih.list hargs with ⟨inner, closing, rfl, hclosingSign, hinner⟩
    have hcall := Derives.call htarget hopeningSign hinner hclosingSign
    rcases ih.suffixes hcall h with ⟨taken, rfl, htaken⟩
    exact ⟨opening :: (inner ++ closing :: taken), by simp, by simpa using htaken⟩
  · cases h
    exact ⟨[], rfl, by simpa using htarget⟩

theorem SoundWithin.list_succ {closer : String} {tokens rest : List Token} {trees : List Expr}
    (h : readList (budget + 1) closer tokens = .ok (trees, rest)) :
    ReadsUntil closer (.list trees) tokens rest := by
  rw [readList] at h
  split at h
  · rename_i afterClosing hclosing
    rcases exists_of_accept? hclosing with ⟨closing, rfl, hsign⟩
    cases h
    exact ⟨[], closing, rfl, hsign, .noItem⟩
  · rw [bind_eq_ok_iff] at h
    rcases h with ⟨⟨first, afterFirst⟩, hfirst, h⟩
    rcases ih.conditional hfirst with ⟨before, rfl, hbefore⟩
    dsimp only at h
    split at h
    · rename_i afterClosing hclosing
      rcases exists_of_accept? hclosing with ⟨closing, rfl, hsign⟩
      cases h
      exact ⟨before, closing, rfl, hsign, .lastItem hbefore⟩
    · rw [bind_eq_ok_iff] at h
      rcases h with ⟨afterComma, hcomma, h⟩
      rcases exists_of_expect hcomma with ⟨comma, rfl, hcommaSign⟩
      rw [bind_eq_ok_iff] at h
      rcases h with ⟨⟨others, afterOthers⟩, hothers, h⟩
      rcases ih.list hothers with ⟨inner, closing, rfl, hsign, hinner⟩
      cases h
      exact ⟨before ++ comma :: inner, closing, by simp, hsign, .items hbefore hcommaSign hinner⟩

theorem SoundWithin.primary_succ {tokens rest : List Token} {tree : Expr}
    (h : readPrimary (budget + 1) tokens = .ok (tree, rest)) :
    Reads (.expr .primary tree) tokens rest := by
  cases tokens with
  | nil => cases h
  | cons token others =>
      rw [readPrimary] at h
      cases hkind : token.kind with
      | number =>
          simp only [hkind] at h
          cases h
          exact ⟨[token], rfl, .number hkind⟩
      | string =>
          simp only [hkind] at h
          cases h
          exact ⟨[token], rfl, .string hkind⟩
      | name =>
          simp only [hkind] at h
          cases h
          exact ⟨[token], rfl, .word hkind⟩
      | operator =>
          simp only [hkind, beq_iff_eq] at h
          split at h
          · rename_i htext
            rw [bind_eq_ok_iff] at h
            rcases h with ⟨⟨inner, afterInner⟩, hinner, h⟩
            rcases ih.conditional hinner with ⟨taken, rfl, htaken⟩
            rw [bind_eq_ok_iff] at h
            rcases h with ⟨afterClosing, hclosing, h⟩
            rcases exists_of_expect hclosing with ⟨closing, rfl, hsign⟩
            cases h
            refine ⟨token :: (taken ++ [closing]), by simp, ?_⟩
            exact .group ⟨hkind, htext⟩ htaken hsign
          · split at h
            · rename_i htext
              rw [bind_eq_ok_iff] at h
              rcases h with ⟨⟨items, afterItems⟩, hitems, h⟩
              rcases ih.list hitems with ⟨inner, closing, rfl, hsign, hinner⟩
              cases h
              refine ⟨token :: (inner ++ [closing]), by simp, ?_⟩
              exact .array ⟨hkind, htext⟩ hinner hsign
            · split at h
              · rename_i htext
                rw [bind_eq_ok_iff] at h
                rcases h with ⟨⟨pairs, afterPairs⟩, hpairs, h⟩
                rcases ih.entries hpairs with ⟨inner, closing, rfl, hsign, hinner⟩
                cases h
                refine ⟨token :: (inner ++ [closing]), by simp, ?_⟩
                exact .object ⟨hkind, htext⟩ hinner hsign
              · cases h
      | stop =>
          simp only [hkind] at h
          cases h

theorem SoundWithin.entries_succ {tokens rest : List Token} {pairs : List (Text × Expr)}
    (h : readEntries (budget + 1) tokens = .ok (pairs, rest)) :
    ReadsUntil "\x7d" (.entries pairs) tokens rest := by
  rw [readEntries] at h
  split at h
  · rename_i afterClosing hclosing
    rcases exists_of_accept? hclosing with ⟨closing, rfl, hsign⟩
    cases h
    exact ⟨[], closing, rfl, hsign, .noEntry⟩
  · rw [bind_eq_ok_iff] at h
    rcases h with ⟨⟨⟨key, tree⟩, afterFirst⟩, hfirst, h⟩
    rcases ih.entry hfirst with ⟨before, rfl, hbefore⟩
    dsimp only at h
    split at h
    · rename_i afterClosing hclosing
      rcases exists_of_accept? hclosing with ⟨closing, rfl, hsign⟩
      cases h
      exact ⟨before, closing, rfl, hsign, .lastEntry hbefore⟩
    · rw [bind_eq_ok_iff] at h
      rcases h with ⟨afterComma, hcomma, h⟩
      rcases exists_of_expect hcomma with ⟨comma, rfl, hcommaSign⟩
      rw [bind_eq_ok_iff] at h
      rcases h with ⟨⟨others, afterOthers⟩, hothers, h⟩
      rcases ih.entries hothers with ⟨inner, closing, rfl, hsign, hinner⟩
      cases h
      refine ⟨before ++ comma :: inner, closing, by simp, hsign, ?_⟩
      exact .entries hbefore hcommaSign hinner

theorem SoundWithin.entry_succ {tokens rest : List Token} {key : Text} {tree : Expr}
    (h : readEntry (budget + 1) tokens = .ok ((key, tree), rest)) :
    Reads (.entry key tree) tokens rest := by
  cases tokens with
  | nil => cases h
  | cons token others =>
      rw [readEntry] at h
      split at h
      · cases h
      · rename_i named hnamed
        split at h
        · rename_i afterColon haccept
          rcases exists_of_accept? haccept with ⟨colon, rfl, hsign⟩
          rw [bind_eq_ok_iff] at h
          rcases h with ⟨⟨value, afterValue⟩, hvalue, h⟩
          rcases ih.conditional hvalue with ⟨after, rfl, hafter⟩
          cases h
          exact ⟨token :: colon :: after, rfl, .pair (keys_of_entryKey? hnamed) hsign hafter⟩
        · cases named with
          | word text =>
              rcases eq_text_of_entryKey? hnamed with ⟨hkind, rfl⟩
              cases h
              exact ⟨[token], rfl, .shorthand hkind⟩
          | quoted text => cases h

end Step

theorem soundWithin (budget : Nat) : SoundWithin budget := by
  induction budget with
  | zero => constructor <;> intros <;> contradiction
  | succ budget ih =>
      constructor
      · exact ih.conditional_succ
      · exact ih.tier_succ
      · exact ih.chain_succ
      · exact ih.unary_succ
      · exact ih.suffixes_succ
      · exact ih.list_succ
      · exact ih.primary_succ
      · exact ih.entries_succ
      · exact ih.entry_succ

end Grammar
end Stencil
