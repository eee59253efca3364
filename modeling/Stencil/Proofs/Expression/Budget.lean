import Stencil.Proofs.Expression.Completeness

/-!
# The budget of the reader

The reader takes at most sixteen steps for each token, so the budget that a row of
tokens gets never runs out. The stop token at the end of a row is what makes every
loop of the reader end: no phrase takes it, so there is always a token to look at.
-/

namespace Stencil
namespace Grammar

open Stencil.Expr

/-- A result that the reader came to on its own. -/
def Finished {α : Type} (result : Except SyntaxError α) : Prop :=
  result ≠ .error .unfinished

theorem finished_ok {α : Type} (a : α) : Finished (.ok a : Except SyntaxError α) := by
  intro h
  cases h

theorem Finished.bind {α β : Type} {first : Except SyntaxError α}
    {next : α → Except SyntaxError β} (h : Finished first)
    (hnext : ∀ a, first = .ok a → Finished (next a)) :
    Finished (first >>= next) := by
  cases first with
  | error e =>
      intro herror
      cases herror
      exact h rfl
  | ok a => exact hnext a rfl

/-! # Rows that end with the stop token -/

def EndsWithStop (tokens : List Token) : Prop :=
  ∃ stop, tokens.getLast? = some stop ∧ stop.kind = .stop

theorem EndsWithStop.length_pos {tokens : List Token} (h : EndsWithStop tokens) :
    0 < tokens.length := by
  rcases h with ⟨stop, hlast, _⟩
  cases tokens with
  | nil => cases hlast
  | cons token rest => exact Nat.succ_pos rest.length

theorem EndsWithStop.rest {taken rest : List Token} (h : EndsWithStop (taken ++ rest))
    (htaken : ∀ token ∈ taken, token.kind ≠ .stop) :
    EndsWithStop rest := by
  rcases h with ⟨stop, hlast, hkind⟩
  cases rest with
  | nil =>
      rw [List.append_nil] at hlast
      exact absurd hkind (htaken stop (List.mem_of_getLast? hlast))
  | cons token others =>
      refine ⟨stop, ?_, hkind⟩
      rw [List.getLast?_append, List.getLast?_cons, Option.some_or] at hlast
      rw [List.getLast?_cons]
      exact hlast

theorem EndsWithStop.tail {token : Token} {rest : List Token}
    (h : EndsWithStop (token :: rest)) (hkind : token.kind ≠ .stop) :
    EndsWithStop rest := by
  have hrow : EndsWithStop ([token] ++ rest) := h
  apply hrow.rest
  simpa using hkind

theorem EndsWithStop.accept? {sign : String} {tokens rest : List Token}
    (h : EndsWithStop tokens) (haccept : accept? sign tokens = some rest) :
    EndsWithStop rest ∧ tokens.length = rest.length + 1 := by
  rcases exists_of_accept? haccept with ⟨token, rfl, hsign⟩
  exact ⟨h.tail (by simp [hsign.1]), rfl⟩

theorem EndsWithStop.expect {sign : String} {tokens rest : List Token}
    (h : EndsWithStop tokens) (hexpect : expect sign tokens = .ok rest) :
    EndsWithStop rest ∧ tokens.length = rest.length + 1 := by
  rcases exists_of_expect hexpect with ⟨token, rfl, hsign⟩
  exact ⟨h.tail (by simp [hsign.1]), rfl⟩

theorem EndsWithStop.acceptOf? {signOf : α → String} {ops : List α} {op : α}
    {tokens rest : List Token} (h : EndsWithStop tokens)
    (haccept : acceptOf? signOf ops tokens = some (op, rest)) :
    EndsWithStop rest ∧ tokens.length = rest.length + 1 := by
  rcases exists_of_acceptOf? haccept with ⟨_, token, rfl, hsign⟩
  exact ⟨h.tail (by simp [hsign.1]), rfl⟩

theorem EndsWithStop.reads {rank : Rank} {tree : Expr} {tokens rest : List Token}
    (h : EndsWithStop tokens) (hreads : Reads (.expr rank tree) tokens rest) :
    EndsWithStop rest ∧ rest.length < tokens.length := by
  rcases hreads with ⟨taken, rfl, hderives⟩
  have hpos := hderives.begins.exprHead.length_pos
  exact ⟨h.rest hderives.ne_stop, by simp; omega⟩

theorem EndsWithStop.readsUntil {closer : String} {phrase : Phrase} {tokens rest : List Token}
    (h : EndsWithStop tokens) (hreads : ReadsUntil closer phrase tokens rest) :
    EndsWithStop rest ∧ rest.length < tokens.length := by
  rcases hreads with ⟨inner, closing, rfl, hsign, hderives⟩
  have hclosing := h.rest hderives.ne_stop
  exact ⟨hclosing.tail (by simp [hsign.1]), by simp; omega⟩

theorem EndsWithStop.readsEntry {key : Text} {tree : Expr} {tokens rest : List Token}
    (h : EndsWithStop tokens) (hreads : Reads (.entry key tree) tokens rest) :
    EndsWithStop rest ∧ rest.length < tokens.length := by
  rcases hreads with ⟨taken, rfl, hderives⟩
  have hpos := BeginsWith.length_pos (Derives.begins hderives)
  exact ⟨h.rest hderives.ne_stop, by simp; omega⟩

theorem finished_expect {sign : String} {tokens : List Token} (h : EndsWithStop tokens) :
    Finished (expect sign tokens) := by
  cases tokens with
  | nil => exact absurd h.length_pos (by simp)
  | cons token rest =>
      intro hexpect
      unfold expect at hexpect
      split at hexpect
      · cases hexpect
      · cases hexpect
      · rename_i _ _ hnil
        cases hnil

/-! # Phrases with commas between them -/

section Items

variable {α : Type}

def itemsFrom (closer : String) (one : List Token → Except SyntaxError (α × List Token))
    (more : List Token → Except SyntaxError (List α × List Token)) (row : List Token) :
    Except SyntaxError (List α × List Token) :=
  match accept? closer row with
  | some rest => .ok ([], rest)
  | none => do
      let (first, rest) ← one row
      match accept? closer rest with
      | some rest => return ([first], rest)
      | none =>
          let rest ← expect "," rest
          let (others, rest) ← more rest
          return (first :: others, rest)

theorem readList_eq (budget : Nat) (closer : String) (row : List Token) :
    readList (budget + 1) closer row =
      itemsFrom closer (readConditional budget) (readList budget closer) row := by
  rw [readList]
  rfl

theorem readEntries_eq (budget : Nat) (row : List Token) :
    readEntries (budget + 1) row =
      itemsFrom "\x7d" (readEntry budget) (readEntries budget) row := by
  rw [readEntries]
  rfl

theorem finished_itemsFrom {closer : String}
    {one : List Token → Except SyntaxError (α × List Token)}
    {more : List Token → Except SyntaxError (List α × List Token)} {row : List Token}
    (hone : Finished (one row))
    (hends : ∀ first rest, one row = .ok (first, rest) →
      EndsWithStop rest ∧ rest.length < row.length)
    (hmore : ∀ rest, EndsWithStop rest → rest.length + 2 ≤ row.length → Finished (more rest)) :
    Finished (itemsFrom closer one more row) := by
  rw [itemsFrom]
  split
  · exact finished_ok _
  · apply hone.bind
    intro found hfirst
    rcases found with ⟨first, afterFirst⟩
    rcases hends first afterFirst hfirst with ⟨hends, hshorter⟩
    dsimp only
    split
    · exact finished_ok _
    · apply (finished_expect hends).bind
      intro afterComma hcomma
      rcases hends.expect hcomma with ⟨hends, hlength⟩
      apply (hmore afterComma hends (by omega)).bind
      intro _ _
      exact finished_ok _

end Items

/-! # Every function of the reader -/

/-- Each function comes to a result if the budget covers the tokens before it. -/
structure FinishesWithin (budget : Nat) : Prop where
  conditional {tokens : List Token} :
    EndsWithStop tokens → 16 * tokens.length + 10 ≤ budget →
    Finished (readConditional budget tokens)
  tier {rank : Rank} {lower : List Tier} {tokens : List Token} :
    TiersOf rank lower → EndsWithStop tokens → 16 * tokens.length + rank.steps ≤ budget →
    Finished (readTier budget lower tokens)
  chain {rank : Rank} {ops : Tier} {lower : List Tier} {left : Expr} {tokens : List Token} :
    TiersOf rank (ops :: lower) → EndsWithStop tokens → 16 * tokens.length + 1 ≤ budget →
    Finished (readChain budget ops lower left tokens)
  unary {tokens : List Token} :
    EndsWithStop tokens → 16 * tokens.length + 2 ≤ budget →
    Finished (readUnary budget tokens)
  suffixes {target : Expr} {tokens : List Token} :
    EndsWithStop tokens → 16 * tokens.length + 1 ≤ budget →
    Finished (readSuffixes budget target tokens)
  list {closer : String} {tokens : List Token} :
    EndsWithStop tokens → 16 * tokens.length + 11 ≤ budget →
    Finished (readList budget closer tokens)
  primary {tokens : List Token} :
    EndsWithStop tokens → 16 * tokens.length + 1 ≤ budget →
    Finished (readPrimary budget tokens)
  entries {tokens : List Token} :
    EndsWithStop tokens → 16 * tokens.length + 12 ≤ budget →
    Finished (readEntries budget tokens)
  entry {tokens : List Token} :
    EndsWithStop tokens → 16 * tokens.length + 11 ≤ budget →
    Finished (readEntry budget tokens)

section Step

variable {budget : Nat} (ih : FinishesWithin budget)

include ih

theorem FinishesWithin.conditional_succ {tokens : List Token} (h : EndsWithStop tokens)
    (hbudget : 16 * tokens.length + 10 ≤ budget + 1) :
    Finished (readConditional (budget + 1) tokens) := by
  rw [readConditional]
  apply (ih.tier .or h (by simp only [Rank.steps]; omega)).bind
  intro found htest
  rcases found with ⟨test, afterTest⟩
  rcases h.reads ((soundWithin budget).tier .or htest) with ⟨hends, hshorter⟩
  dsimp only
  split
  · exact finished_ok _
  · rename_i afterQuestion hquestion
    rcases hends.accept? hquestion with ⟨hends, hlength⟩
    apply (ih.conditional hends (by omega)).bind
    intro found hyes
    rcases found with ⟨yes, afterYes⟩
    rcases hends.reads ((soundWithin budget).conditional hyes) with ⟨hends, hyesShorter⟩
    apply (finished_expect hends).bind
    intro afterColon hcolon
    rcases hends.expect hcolon with ⟨hends, hcolonLength⟩
    apply (ih.conditional hends (by omega)).bind
    intro _ _
    exact finished_ok _

theorem FinishesWithin.tier_succ {rank : Rank} {lower : List Tier} {tokens : List Token}
    (hrank : TiersOf rank lower) (h : EndsWithStop tokens)
    (hbudget : 16 * tokens.length + rank.steps ≤ budget + 1) :
    Finished (readTier (budget + 1) lower tokens) := by
  cases lower with
  | nil =>
      rcases hrank.eq_unary with rfl
      simp only [Rank.steps] at hbudget
      exact ih.unary h (by omega)
  | cons ops lower =>
      rcases hrank.exists_next with ⟨next, hnext, hlower, _⟩
      have hsteps : rank.steps = next.steps + 1 := by
        cases hrank <;> cases hnext <;> rfl
      rw [readTier]
      apply (ih.tier hlower h (by omega)).bind
      intro found hfirst
      rcases found with ⟨first, afterFirst⟩
      rcases h.reads ((soundWithin budget).tier hlower hfirst) with ⟨hends, hshorter⟩
      exact ih.chain hrank hends (by omega)

theorem FinishesWithin.chain_succ {rank : Rank} {ops : Tier} {lower : List Tier} {left : Expr}
    {tokens : List Token} (hrank : TiersOf rank (ops :: lower)) (h : EndsWithStop tokens)
    (hbudget : 16 * tokens.length + 1 ≤ budget + 1) :
    Finished (readChain (budget + 1) ops lower left tokens) := by
  rcases hrank.exists_next with ⟨next, hnext, hlower, _⟩
  have hsteps : next.steps ≤ 10 := by cases next <;> decide
  rw [readChain]
  split
  · exact finished_ok _
  · rename_i op afterOp haccept
    rcases h.acceptOf? haccept with ⟨hends, hlength⟩
    apply (ih.tier hlower hends (by omega)).bind
    intro found hright
    rcases found with ⟨right, afterRight⟩
    rcases hends.reads ((soundWithin budget).tier hlower hright) with ⟨hends, hshorter⟩
    exact ih.chain hrank hends (by omega)

theorem FinishesWithin.unary_succ {tokens : List Token} (h : EndsWithStop tokens)
    (hbudget : 16 * tokens.length + 2 ≤ budget + 1) :
    Finished (readUnary (budget + 1) tokens) := by
  rw [readUnary]
  split
  · rename_i op afterOp haccept
    rcases h.acceptOf? haccept with ⟨hends, hlength⟩
    apply (ih.unary hends (by omega)).bind
    intro _ _
    exact finished_ok _
  · apply (ih.primary h (by omega)).bind
    intro found hfirst
    rcases found with ⟨first, afterFirst⟩
    rcases h.reads ((soundWithin budget).primary hfirst) with ⟨hends, hshorter⟩
    exact ih.suffixes hends (by omega)

theorem FinishesWithin.suffixes_succ {target : Expr} {tokens : List Token}
    (h : EndsWithStop tokens) (hbudget : 16 * tokens.length + 1 ≤ budget + 1) :
    Finished (readSuffixes (budget + 1) target tokens) := by
  rw [readSuffixes]
  split
  · rename_i afterDot hdot
    rcases h.accept? hdot with ⟨hends, hlength⟩
    split
    · rename_i word afterWord
      split
      · rename_i hname
        have hafterWord := hends.tail (by simp_all)
        simp only [List.length_cons] at hlength
        exact ih.suffixes hafterWord (by omega)
      · intro herror
        cases herror
    · exact absurd hends.length_pos (by simp)
  · rename_i afterOpening hopening _
    rcases h.accept? hopening with ⟨hends, hlength⟩
    apply (ih.conditional hends (by omega)).bind
    intro found hkey
    rcases found with ⟨key, afterKey⟩
    rcases hends.reads ((soundWithin budget).conditional hkey) with ⟨hends, hshorter⟩
    apply (finished_expect hends).bind
    intro afterClosing hclosing
    rcases hends.expect hclosing with ⟨hends, hclosingLength⟩
    exact ih.suffixes hends (by omega)
  · rename_i afterOpening hopening _ _
    rcases h.accept? hopening with ⟨hends, hlength⟩
    apply (ih.list hends (by omega)).bind
    intro found hargs
    rcases found with ⟨args, afterArgs⟩
    rcases hends.readsUntil ((soundWithin budget).list hargs) with ⟨hends, hshorter⟩
    exact ih.suffixes hends (by omega)
  · exact finished_ok _

theorem FinishesWithin.list_succ {closer : String} {tokens : List Token}
    (h : EndsWithStop tokens) (hbudget : 16 * tokens.length + 11 ≤ budget + 1) :
    Finished (readList (budget + 1) closer tokens) := by
  rw [readList_eq]
  apply finished_itemsFrom (ih.conditional h (by omega))
  · intro first rest hfirst
    exact h.reads ((soundWithin budget).conditional hfirst)
  · intro rest hends hlength
    exact ih.list hends (by omega)

theorem FinishesWithin.primary_succ {tokens : List Token} (h : EndsWithStop tokens)
    (hbudget : 16 * tokens.length + 1 ≤ budget + 1) :
    Finished (readPrimary (budget + 1) tokens) := by
  cases tokens with
  | nil => exact absurd h.length_pos (by simp)
  | cons token rest =>
      simp only [List.length_cons] at hbudget
      rw [readPrimary]
      cases hkind : token.kind with
      | number => exact finished_ok _
      | string => exact finished_ok _
      | name => exact finished_ok _
      | operator =>
          have hends := h.tail (by simp [hkind])
          dsimp only
          split
          · apply (ih.conditional hends (by omega)).bind
            intro found hinner
            rcases found with ⟨inner, afterInner⟩
            rcases hends.reads ((soundWithin budget).conditional hinner) with ⟨hends, _⟩
            apply (finished_expect hends).bind
            intro _ _
            exact finished_ok _
          · split
            · apply (ih.list hends (by omega)).bind
              intro _ _
              exact finished_ok _
            · split
              · apply (ih.entries hends (by omega)).bind
                intro _ _
                exact finished_ok _
              · intro herror
                cases herror
      | stop =>
          intro herror
          cases herror

theorem FinishesWithin.entries_succ {tokens : List Token}
    (h : EndsWithStop tokens) (hbudget : 16 * tokens.length + 12 ≤ budget + 1) :
    Finished (readEntries (budget + 1) tokens) := by
  rw [readEntries_eq]
  apply finished_itemsFrom (ih.entry h (by omega))
  · intro first rest hfirst
    exact h.readsEntry ((soundWithin budget).entry hfirst)
  · intro rest hends hlength
    exact ih.entries hends (by omega)

theorem FinishesWithin.entry_succ {tokens : List Token} (h : EndsWithStop tokens)
    (hbudget : 16 * tokens.length + 11 ≤ budget + 1) :
    Finished (readEntry (budget + 1) tokens) := by
  cases tokens with
  | nil => exact absurd h.length_pos (by simp)
  | cons token rest =>
      simp only [List.length_cons] at hbudget
      rw [readEntry]
      split
      · intro herror
        cases herror
      · rename_i named hnamed
        have hends := h.tail (keys_of_entryKey? hnamed).ne_stop
        split
        · rename_i afterColon haccept
          rcases hends.accept? haccept with ⟨hends, hlength⟩
          apply (ih.conditional hends (by omega)).bind
          intro _ _
          exact finished_ok _
        · cases named with
          | word text => exact finished_ok _
          | quoted text =>
              intro herror
              cases herror

end Step

theorem finishesWithin (budget : Nat) : FinishesWithin budget := by
  induction budget with
  | zero =>
      have hnone : ∀ {tokens : List Token} {k : Nat}, EndsWithStop tokens →
          ¬ 16 * tokens.length + k ≤ 0 := by
        intro tokens k h
        have hpos := h.length_pos
        omega
      constructor <;> intros <;> exact absurd ‹_ ≤ 0› (hnone ‹_›)
  | succ budget ih =>
      constructor
      · exact ih.conditional_succ
      · exact ih.tier_succ
      · exact ih.chain_succ
      · exact ih.unary_succ
      · exact ih.suffixes_succ
      · exact ih.list_succ
      · exact ih.primary_succ
      · exact ih.entries_succ
      · exact ih.entry_succ

theorem finished_ofTokens {tokens : List Token} (h : EndsWithStop tokens) :
    Finished (ofTokens tokens) := by
  unfold ofTokens
  split
  · exact absurd h.length_pos (by simp)
  · rename_i first others
    split
    · intro herror
      cases herror
    · apply ((finishesWithin _).conditional h (by simp only [budgetFor]; omega)).bind
      intro found hread
      rcases found with ⟨tree, rest⟩
      rcases h.reads ((soundWithin _).conditional hread) with ⟨hends, _⟩
      dsimp only
      split
      · exact absurd hends.length_pos (by simp)
      · split
        · exact finished_ok _
        · intro herror
          cases herror

end Grammar
end Stencil
