import Stencil.Proofs.Expression.Soundness

/-!
# The reader accepts the grammar

A phrase that the grammar derives is read back with its tree, whatever follows it,
as long as what follows cannot go on with the phrase. A left operand and the chain
after it are one phrase for the grammar, but the reader meets the operand first. So
for the ranks with chains the induction claims less: that the reader comes to stand
where the chain goes on.
-/

namespace Stencil
namespace Grammar

open Stencil.Expr

/-! # What cannot go on with a phrase -/

/-- The signs that each rank adds to the ones after it, the loosest rank first. -/
def signsByRank : List (List String) :=
  [ ["?"], ["||"], ["&&"], ["==", "!=", "===", "!=="], ["<", "<=", ">", ">="], ["+", "-"],
    ["*", "/", "%"], [], [".", "[", "("], [] ]

def Rank.extensions (rank : Rank) : List String :=
  (signsByRank.drop rank.ctorIdx).flatten

def Stops (rank : Rank) (tokens : List Token) : Prop :=
  ∀ sign ∈ rank.extensions, accept? sign tokens = none

theorem Rank.mem_extensions_of_next {rank next : Rank} (h : rank.next? = some next)
    {sign : String} (hsign : sign ∈ next.extensions) :
    sign ∈ rank.extensions := by
  have hsplit : ∃ own, rank.extensions = own ++ next.extensions := by
    cases rank <;> cases h <;> exact ⟨_, rfl⟩
  rcases hsplit with ⟨own, hown⟩
  rw [hown]
  exact List.mem_append_right own hsign

theorem Stops.next {rank next : Rank} {tokens : List Token} (h : Stops rank tokens)
    (hnext : rank.next? = some next) :
    Stops next tokens := by
  intro sign hsign
  exact h sign (Rank.mem_extensions_of_next hnext hsign)

theorem accept?_cons_eq_none {token : Token} {sign : String} (h : ¬ IsSign token sign)
    (rest : List Token) :
    accept? sign (token :: rest) = none := by
  simp [accept?, isOperator_iff, h]

theorem IsSign.unique {token : Token} {sign other : String} (h : IsSign token sign)
    (hother : IsSign token other) : sign = other := by
  rw [← h.2, hother.2]

theorem Stops.of_sign {rank : Rank} {token : Token} {sign : String} (h : IsSign token sign)
    (hsign : sign ∉ rank.extensions) (rest : List Token) :
    Stops rank (token :: rest) := by
  intro other hother
  apply accept?_cons_eq_none
  intro hsame
  rw [h.unique hsame] at hsign
  exact hsign hother

theorem Stops.of_kind {rank : Rank} {token : Token} (h : token.kind ≠ .operator)
    (rest : List Token) :
    Stops rank (token :: rest) := by
  intro sign _
  apply accept?_cons_eq_none
  intro hsign
  exact h hsign.1

theorem Joins.not_mem_extensions {rank next : Rank} {sign : String}
    {join : Expr → Expr → Expr} (h : Joins rank sign join) (hnext : rank.next? = some next) :
    sign ∉ next.extensions := by
  cases h <;> cases hnext <;> decide

/-! # Signs that are accepted or not -/

theorem acceptOf?_eq_none {signOf : α → String} {ops : List α} {tokens : List Token}
    (h : ∀ op ∈ ops, accept? (signOf op) tokens = none) :
    acceptOf? signOf ops tokens = none := by
  rw [acceptOf?, List.findSome?_eq_none_iff]
  intro op hop
  rw [h op hop, Option.map_none]

theorem acceptOf?_of_stops {rank : Rank} {ops : Tier} {lower : List Tier} {tokens : List Token}
    (hrank : TiersOf rank (ops :: lower)) (h : Stops rank tokens) :
    acceptOf? Connective.sign ops tokens = none := by
  apply acceptOf?_eq_none
  intro op hop
  apply h
  generalize hall : ops :: lower = all at hrank
  cases hrank <;> cases hall <;> revert op <;> decide

theorem acceptOf?_of_joins {rank : Rank} {ops : Tier} {lower : List Tier} {sign : String}
    {join : Expr → Expr → Expr} {token : Token} (hrank : TiersOf rank (ops :: lower))
    (hjoins : Joins rank sign join) (hsign : IsSign token sign) (rest : List Token) :
    ∃ op, acceptOf? Connective.sign ops (token :: rest) = some (op, rest) ∧ op.join = join := by
  generalize hall : ops :: lower = all at hrank
  rcases hsign with ⟨hkind, rfl⟩
  cases hrank <;> cases hall <;> generalize htext : token.text = text at hjoins <;>
    cases hjoins <;>
    exact ⟨_, by
      simp only [acceptOf?, accept?, Token.isOperator, hkind, htext, Connective.sign]; rfl, rfl⟩

theorem acceptOf?_of_precedes {sign : String} {op : UnaryOp} {token : Token}
    (h : Precedes sign op) (hsign : IsSign token sign) (rest : List Token) :
    acceptOf? UnaryOp.sign unaryOps (token :: rest) = some (op, rest) := by
  rcases hsign with ⟨hkind, rfl⟩
  generalize htext : token.text = text at h
  cases h <;>
    simp only [acceptOf?, accept?, Token.isOperator, hkind, htext, unaryOps, UnaryOp.sign] <;> rfl

theorem acceptOf?_of_operandHead {tokens : List Token} (h : BeginsWith OperandHead tokens) :
    acceptOf? UnaryOp.sign unaryOps tokens = none := by
  rcases h with ⟨token, rest, rfl, hhead⟩
  apply acceptOf?_eq_none
  intro op _
  apply accept?_cons_eq_none
  intro hsign
  cases hhead with
  | number hkind => cases hkind.symm.trans hsign.1
  | string hkind => cases hkind.symm.trans hsign.1
  | name hkind => cases hkind.symm.trans hsign.1
  | group hgroup => cases op <;> exact absurd (hgroup.unique hsign) (by decide)
  | array harray => cases op <;> exact absurd (harray.unique hsign) (by decide)
  | object hobject => cases op <;> exact absurd (hobject.unique hsign) (by decide)

theorem accept?_of_exprHead {closer : String} (hcloser : closer = ")" ∨ closer = "]")
    {tokens : List Token} (h : BeginsWith ExprHead tokens) :
    accept? closer tokens = none := by
  rcases h with ⟨token, rest, rfl, hhead⟩
  apply accept?_cons_eq_none
  intro hsign
  cases hhead with
  | operand hoperand =>
      cases hoperand with
      | number hkind => cases hkind.symm.trans hsign.1
      | string hkind => cases hkind.symm.trans hsign.1
      | name hkind => cases hkind.symm.trans hsign.1
      | group hgroup =>
          rcases hcloser with rfl | rfl <;> exact absurd (hgroup.unique hsign) (by decide)
      | array harray =>
          rcases hcloser with rfl | rfl <;> exact absurd (harray.unique hsign) (by decide)
      | object hobject =>
          rcases hcloser with rfl | rfl <;> exact absurd (hobject.unique hsign) (by decide)
  | preceded hprecedes hpreceding =>
      cases hprecedes <;> rcases hcloser with rfl | rfl <;>
        exact absurd (hpreceding.unique hsign) (by decide)

theorem accept?_of_entryHead {sign : String} {tokens : List Token}
    (h : BeginsWith EntryHead tokens) :
    accept? sign tokens = none := by
  rcases h with ⟨token, rest, rfl, hhead⟩
  apply accept?_cons_eq_none
  intro hsign
  exact hhead hsign.1

theorem expect_cons {token : Token} {sign : String} (h : IsSign token sign)
    (rest : List Token) :
    expect sign (token :: rest) = .ok rest := by
  simp [expect, accept?_cons h]

/-! # What is claimed of each phrase -/

def Rank.steps : Rank → Nat
  | conditional => 10
  | or => 9
  | and => 8
  | equality => 7
  | relational => 6
  | additive => 5
  | multiplicative => 4
  | unary => 3
  | suffixed => 2
  | primary => 1

def ReachesChain (rank : Rank) (tree : Expr) (tokens : List Token) : Prop :=
  ∀ (next : Rank) (ops : Tier) (lower : List Tier) (budget : Nat) (rest : List Token),
    TiersOf rank (ops :: lower) →
    rank.next? = some next →
    16 * tokens.length + rank.steps ≤ budget →
    Stops next rest →
    ∃ left, budget ≤ left + tokens.length ∧
      readTier budget (ops :: lower) (tokens ++ rest) = readChain left ops lower tree rest

def ReadsBack : Phrase → List Token → Prop
  | .expr .conditional tree, tokens =>
      ∀ (budget : Nat) (rest : List Token), 16 * tokens.length + 10 ≤ budget →
        Stops .conditional rest →
        readConditional budget (tokens ++ rest) = .ok (tree, rest)
  | .expr .unary tree, tokens =>
      ∀ (budget : Nat) (rest : List Token), 16 * tokens.length + 2 ≤ budget →
        Stops .unary rest →
        readUnary budget (tokens ++ rest) = .ok (tree, rest)
  | .expr .suffixed tree, tokens =>
      ∀ (budget : Nat) (rest : List Token), 16 * tokens.length + 2 ≤ budget →
        ∃ left, budget ≤ left + tokens.length ∧
          readUnary budget (tokens ++ rest) = readSuffixes left tree rest
  | .expr .primary tree, tokens =>
      ∀ (budget : Nat) (rest : List Token), 16 * tokens.length + 1 ≤ budget →
        readPrimary budget (tokens ++ rest) = .ok (tree, rest)
  | .expr rank tree, tokens => ReachesChain rank tree tokens
  | .list trees, tokens =>
      ∀ (budget : Nat) (closer : String) (closing : Token) (rest : List Token),
        16 * tokens.length + 11 ≤ budget →
        (closer = ")" ∨ closer = "]") → IsSign closing closer →
        readList budget closer (tokens ++ closing :: rest) = .ok (trees, rest)
  | .entry key tree, tokens =>
      ∀ (budget : Nat) (rest : List Token), 16 * tokens.length ≤ budget →
        Stops .conditional rest → accept? ":" rest = none →
        readEntry budget (tokens ++ rest) = .ok ((key, tree), rest)
  | .entries pairs, tokens =>
      ∀ (budget : Nat) (closing : Token) (rest : List Token),
        16 * tokens.length + 1 ≤ budget → IsSign closing "\x7d" →
        readEntries budget (tokens ++ closing :: rest) = .ok (pairs, rest)

theorem bind_ok {ε α β : Type} (a : α) (next : α → Except ε β) :
    (Except.ok a >>= next) = next a :=
  rfl

theorem readChain_of_stops {rank : Rank} {ops : Tier} {lower : List Tier} {tree : Expr}
    {budget : Nat} {rest : List Token} (hrank : TiersOf rank (ops :: lower))
    (hbudget : 0 < budget) (hstops : Stops rank rest) :
    readChain budget ops lower tree rest = .ok (tree, rest) := by
  rcases Nat.exists_eq_add_of_lt hbudget with ⟨left, rfl⟩
  rw [Nat.zero_add, readChain, acceptOf?_of_stops hrank hstops]

theorem readSuffixes_of_stops {target : Expr} {budget : Nat} {rest : List Token}
    (hbudget : 0 < budget) (hstops : Stops .suffixed rest) :
    readSuffixes budget target rest = .ok (target, rest) := by
  rcases Nat.exists_eq_add_of_lt hbudget with ⟨left, rfl⟩
  rw [Nat.zero_add, readSuffixes, hstops "." (by decide), hstops "[" (by decide),
    hstops "(" (by decide)]

/-! # Phrases of one rank after the other -/

theorem ReadsBack.readTier_eq {rank : Rank} {tree : Expr} {tokens : List Token}
    (h : ReadsBack (.expr rank tree) tokens) {lower : List Tier} (hrank : TiersOf rank lower)
    {budget : Nat} {rest : List Token} (hbudget : 16 * tokens.length + rank.steps ≤ budget)
    (hstops : Stops rank rest) :
    readTier budget lower (tokens ++ rest) = .ok (tree, rest) := by
  cases lower with
  | nil =>
      rcases hrank.eq_unary with rfl
      simp only [Rank.steps] at hbudget
      rcases Nat.exists_eq_add_one.mpr (show 0 < budget by omega) with ⟨left, rfl⟩
      rw [readTier]
      exact h left rest (by omega) hstops
  | cons ops lower =>
      rcases hrank.exists_next with ⟨next, hnext, _, _⟩
      have hchain : ReachesChain rank tree tokens := by
        cases hnext' : rank with
        | conditional => subst hnext'; cases hrank
        | unary => subst hnext'; cases hrank
        | suffixed => subst hnext'; cases hrank
        | primary => subst hnext'; cases hrank
        | _ => subst hnext'; exact h
      rcases hchain next ops lower budget rest hrank hnext hbudget
        (hstops.next hnext) with ⟨left, hleft, heq⟩
      have hsteps : 0 < rank.steps := by cases rank <;> decide
      rw [heq]
      exact readChain_of_stops hrank (by omega) hstops

theorem reachesChain_of_next {rank next : Rank} {tree : Expr} {tokens : List Token}
    (hnext : rank.next? = some next) (hpos : 0 < tokens.length)
    (h : ReadsBack (.expr next tree) tokens) :
    ReachesChain rank tree tokens := by
  intro next' ops lower budget rest hrank hnext' hbudget hstops
  rcases hrank.exists_next with ⟨tight, htight, hlower, _⟩
  rw [hnext] at hnext' htight
  cases hnext'
  cases htight
  have hsteps : rank.steps = next.steps + 1 := by
    cases hrank <;> cases hnext <;> rfl
  rcases Nat.exists_eq_add_one.mpr (show 0 < budget by omega) with ⟨left, rfl⟩
  refine ⟨left, by omega, ?_⟩
  rw [readTier, h.readTier_eq hlower (by omega) hstops, bind_ok]

theorem readsBack_tighter {rank next : Rank} {tree : Expr} {tokens : List Token}
    (hnext : rank.next? = some next) (hderives : Derives (.expr next tree) tokens)
    (h : ReadsBack (.expr next tree) tokens) :
    ReadsBack (.expr rank tree) tokens := by
  have hpos := hderives.begins.exprHead.length_pos
  cases rank with
  | conditional =>
      cases hnext
      intro budget rest hbudget hstops
      rcases Nat.exists_eq_add_one.mpr (show 0 < budget by omega) with ⟨left, rfl⟩
      have hsteps : 16 * tokens.length + Rank.or.steps ≤ left := by
        simp only [Rank.steps]
        omega
      rw [readConditional, h.readTier_eq .or hsteps (hstops.next rfl), bind_ok]
      dsimp only
      rw [hstops "?" (by decide)]
      rfl
  | unary =>
      cases hnext
      intro budget rest hbudget hstops
      rcases h budget rest hbudget with ⟨left, hleft, heq⟩
      rw [heq]
      exact readSuffixes_of_stops (by omega) (hstops.next rfl)
  | suffixed =>
      cases hnext
      intro budget rest hbudget
      rcases Nat.exists_eq_add_one.mpr (show 0 < budget by omega) with ⟨left, rfl⟩
      refine ⟨left, by omega, ?_⟩
      have hhead := BeginsWith.append (Derives.begins hderives) rest
      rw [readUnary, acceptOf?_of_operandHead hhead]
      dsimp only
      rw [h left rest (by omega), bind_ok]
  | primary => cases hnext
  | _ => exact reachesChain_of_next hnext hpos h

theorem readsBack_choice {test yes no : Expr} {before between after : List Token}
    {question colon : Token} (htest : ReadsBack (.expr .or test) before)
    (hquestion : IsSign question "?") (hyes : ReadsBack (.expr .conditional yes) between)
    (hcolon : IsSign colon ":") (hno : ReadsBack (.expr .conditional no) after) :
    ReadsBack (.expr .conditional (.conditional test yes no))
      (before ++ question :: (between ++ colon :: after)) := by
  intro budget rest hbudget hstops
  simp only [List.length_append, List.length_cons] at hbudget
  rcases Nat.exists_eq_add_one.mpr (show 0 < budget by omega) with ⟨left, rfl⟩
  simp only [List.append_assoc, List.cons_append]
  rw [readConditional, htest.readTier_eq .or (by simp only [Rank.steps]; omega)
    (.of_sign hquestion (by decide) _), bind_ok]
  dsimp only
  rw [accept?_cons hquestion]
  dsimp only
  rw [hyes _ _ (by omega) (.of_sign hcolon (by decide) _), bind_ok]
  dsimp only
  rw [expect_cons hcolon, bind_ok, hno _ _ (by omega) hstops]
  rfl

theorem readsBack_joined {rank next : Rank} {sign : String} {join : Expr → Expr → Expr}
    {left right : Expr} {before after : List Token} {operator : Token}
    (hjoins : Joins rank sign join) (hnext : rank.next? = some next)
    (hleft : ReachesChain rank left before) (hsign : IsSign operator sign)
    (hright : ReadsBack (.expr next right) after) :
    ReachesChain rank (join left right) (before ++ operator :: after) := by
  intro next' ops lower budget rest hrank hnext' hbudget hstops
  rcases hrank.exists_next with ⟨tight, htight, hlower, _⟩
  rw [hnext] at hnext' htight
  cases hnext'
  cases htight
  have hsteps : next.steps ≤ 10 := by cases next <;> decide
  simp only [List.length_append, List.length_cons] at hbudget
  have hoperator : Stops next (operator :: (after ++ rest)) :=
    .of_sign hsign (hjoins.not_mem_extensions hnext) _
  rcases hleft next ops lower budget _ hrank hnext (by omega)
    hoperator with ⟨reached, hreached, heq⟩
  rcases Nat.exists_eq_add_one.mpr (show 0 < reached by omega) with ⟨further, rfl⟩
  rcases acceptOf?_of_joins hrank hjoins hsign (after ++ rest) with ⟨op, haccept, hjoin⟩
  refine ⟨further, by simp only [List.length_append, List.length_cons]; omega, ?_⟩
  simp only [List.append_assoc, List.cons_append]
  rw [heq, readChain, haccept]
  dsimp only
  rw [hright.readTier_eq hlower (by omega) hstops, bind_ok, hjoin]

theorem readsBack_preceded {sign : String} {op : UnaryOp} {operand : Expr} {operator : Token}
    {after : List Token} (hprecedes : Precedes sign op) (hsign : IsSign operator sign)
    (hoperand : ReadsBack (.expr .unary operand) after) :
    ReadsBack (.expr .unary (.unary op operand)) (operator :: after) := by
  intro budget rest hbudget hstops
  simp only [List.length_cons] at hbudget
  rcases Nat.exists_eq_add_one.mpr (show 0 < budget by omega) with ⟨left, rfl⟩
  rw [List.cons_append, readUnary, acceptOf?_of_precedes hprecedes hsign]
  dsimp only
  rw [hoperand _ _ (by omega) hstops]
  rfl

/-! # Suffixes -/

theorem readSuffixes_dot {target : Expr} {budget : Nat} {dot word : Token}
    (hdot : IsSign dot ".") (hword : word.kind = .name) (rest : List Token) :
    readSuffixes (budget + 1) target (dot :: word :: rest) =
      readSuffixes budget (.member target (.literal (.str word.text))) rest := by
  rw [readSuffixes, accept?_cons hdot]
  simp [hword]

theorem readsBack_property {target : Expr} {before : List Token} {dot word : Token}
    (htarget : ReadsBack (.expr .suffixed target) before) (hdot : IsSign dot ".")
    (hword : word.kind = .name) :
    ReadsBack (.expr .suffixed (.member target (.literal (.str word.text))))
      (before ++ [dot, word]) := by
  intro budget rest hbudget
  simp only [List.length_append, List.length_cons, List.length_nil] at hbudget ⊢
  rcases htarget budget (dot :: word :: rest) (by omega) with ⟨reached, hreached, heq⟩
  rcases Nat.exists_eq_add_one.mpr (show 0 < reached by omega) with ⟨left, rfl⟩
  refine ⟨left, by omega, ?_⟩
  simp only [List.append_assoc, List.cons_append, List.nil_append]
  rw [heq, readSuffixes_dot hdot hword]

theorem readsBack_subscript {target key : Expr} {before inner : List Token}
    {opening closing : Token} (htarget : ReadsBack (.expr .suffixed target) before)
    (hopening : IsSign opening "[") (hkey : ReadsBack (.expr .conditional key) inner)
    (hclosing : IsSign closing "]") :
    ReadsBack (.expr .suffixed (.member target key))
      (before ++ opening :: (inner ++ [closing])) := by
  intro budget rest hbudget
  simp only [List.length_append, List.length_cons, List.length_nil] at hbudget ⊢
  rcases htarget budget (opening :: (inner ++ closing :: rest)) (by omega) with
    ⟨reached, hreached, heq⟩
  rcases Nat.exists_eq_add_one.mpr (show 0 < reached by omega) with ⟨left, rfl⟩
  refine ⟨left, by omega, ?_⟩
  have hnotDot : ¬ IsSign opening "." := fun h => absurd (hopening.unique h) (by decide)
  simp only [List.append_assoc, List.cons_append, List.nil_append]
  rw [heq, readSuffixes, accept?_cons_eq_none hnotDot, accept?_cons hopening]
  dsimp only
  rw [hkey _ _ (by omega) (.of_sign hclosing (by decide) _), bind_ok]
  dsimp only
  rw [expect_cons hclosing, bind_ok]

theorem readsBack_call {callee : Expr} {args : List Expr} {before inner : List Token}
    {opening closing : Token} (hcallee : ReadsBack (.expr .suffixed callee) before)
    (hopening : IsSign opening "(") (hargs : ReadsBack (.list args) inner)
    (hclosing : IsSign closing ")") :
    ReadsBack (.expr .suffixed (.call callee args))
      (before ++ opening :: (inner ++ [closing])) := by
  intro budget rest hbudget
  simp only [List.length_append, List.length_cons, List.length_nil] at hbudget ⊢
  rcases hcallee budget (opening :: (inner ++ closing :: rest)) (by omega) with
    ⟨reached, hreached, heq⟩
  rcases Nat.exists_eq_add_one.mpr (show 0 < reached by omega) with ⟨left, rfl⟩
  refine ⟨left, by omega, ?_⟩
  have hnotDot : ¬ IsSign opening "." := fun h => absurd (hopening.unique h) (by decide)
  have hnotBracket : ¬ IsSign opening "[" := fun h => absurd (hopening.unique h) (by decide)
  simp only [List.append_assoc, List.cons_append, List.nil_append]
  rw [heq, readSuffixes, accept?_cons_eq_none hnotDot, accept?_cons_eq_none hnotBracket,
    accept?_cons hopening]
  dsimp only
  rw [hargs _ _ _ _ (by omega) (.inl rfl) hclosing, bind_ok]

/-! # Primaries -/

theorem readPrimary_token {budget : Nat} {token : Token} {tree : Expr} (rest : List Token)
    (h : readPrimary 1 [token] = .ok (tree, [])) (hkind : token.kind ≠ .operator) :
    readPrimary (budget + 1) (token :: rest) = .ok (tree, rest) := by
  rw [readPrimary] at h ⊢
  cases hk : token.kind with
  | operator => exact absurd hk hkind
  | stop =>
      rw [hk] at h
      cases h
  | _ =>
      rw [hk] at h
      cases h
      rfl

theorem readsBack_token {token : Token} {tree : Expr}
    (h : readPrimary 1 [token] = .ok (tree, [])) (hkind : token.kind ≠ .operator) :
    ReadsBack (.expr .primary tree) [token] := by
  intro budget rest hbudget
  rcases Nat.exists_eq_add_one.mpr (show 0 < budget by omega) with ⟨left, rfl⟩
  exact readPrimary_token rest h hkind

theorem readsBack_group {tree : Expr} {inner : List Token} {opening closing : Token}
    (hopening : IsSign opening "(") (hinner : ReadsBack (.expr .conditional tree) inner)
    (hclosing : IsSign closing ")") :
    ReadsBack (.expr .primary tree) (opening :: (inner ++ [closing])) := by
  intro budget rest hbudget
  simp only [List.length_append, List.length_cons, List.length_nil] at hbudget
  rcases Nat.exists_eq_add_one.mpr (show 0 < budget by omega) with ⟨left, rfl⟩
  simp only [List.append_assoc, List.cons_append, List.nil_append]
  rw [readPrimary, hopening.1]
  simp only [hopening.2, beq_self_eq_true, if_true]
  rw [hinner _ _ (by omega) (.of_sign hclosing (by decide) _), bind_ok]
  dsimp only
  rw [expect_cons hclosing]
  rfl

theorem readsBack_array {items : List Expr} {inner : List Token} {opening closing : Token}
    (hopening : IsSign opening "[") (hitems : ReadsBack (.list items) inner)
    (hclosing : IsSign closing "]") :
    ReadsBack (.expr .primary (.array items)) (opening :: (inner ++ [closing])) := by
  intro budget rest hbudget
  simp only [List.length_append, List.length_cons, List.length_nil] at hbudget
  rcases Nat.exists_eq_add_one.mpr (show 0 < budget by omega) with ⟨left, rfl⟩
  simp only [List.append_assoc, List.cons_append, List.nil_append]
  rw [readPrimary, hopening.1]
  simp only [hopening.2]
  rw [hitems _ _ _ _ (by omega) (.inr rfl) hclosing]
  rfl

theorem readsBack_object {pairs : List (Text × Expr)} {inner : List Token}
    {opening closing : Token} (hopening : IsSign opening "\x7b")
    (hpairs : ReadsBack (.entries pairs) inner) (hclosing : IsSign closing "\x7d") :
    ReadsBack (.expr .primary (.object pairs)) (opening :: (inner ++ [closing])) := by
  intro budget rest hbudget
  simp only [List.length_append, List.length_cons, List.length_nil] at hbudget
  rcases Nat.exists_eq_add_one.mpr (show 0 < budget by omega) with ⟨left, rfl⟩
  simp only [List.append_assoc, List.cons_append, List.nil_append]
  rw [readPrimary, hopening.1]
  simp only [hopening.2]
  rw [hpairs _ _ _ (by omega) hclosing]
  rfl

/-! # Lists and entries -/

theorem readsBack_noItem : ReadsBack (.list []) [] := by
  intro budget closer closing rest hbudget _ hclosing
  rcases Nat.exists_eq_add_one.mpr (show 0 < budget by omega) with ⟨left, rfl⟩
  rw [List.nil_append, readList, accept?_cons hclosing]

theorem readsBack_lastItem {tree : Expr} {tokens : List Token}
    (hderives : Derives (.expr .conditional tree) tokens)
    (h : ReadsBack (.expr .conditional tree) tokens) :
    ReadsBack (.list [tree]) tokens := by
  intro budget closer closing rest hbudget hcloser hclosing
  rcases Nat.exists_eq_add_one.mpr (show 0 < budget by omega) with ⟨left, rfl⟩
  have hstops : Stops .conditional (closing :: rest) :=
    .of_sign hclosing (by rcases hcloser with rfl | rfl <;> decide) _
  have hhead := BeginsWith.append (Derives.begins hderives) (closing :: rest)
  rw [readList, accept?_of_exprHead hcloser hhead]
  dsimp only
  rw [h _ _ (by omega) hstops, bind_ok]
  dsimp only
  rw [accept?_cons hclosing]
  rfl

theorem readsBack_items {tree : Expr} {others : List Expr} {before after : List Token}
    {comma : Token} (hderives : Derives (.expr .conditional tree) before)
    (h : ReadsBack (.expr .conditional tree) before) (hcomma : IsSign comma ",")
    (hothers : ReadsBack (.list others) after) :
    ReadsBack (.list (tree :: others)) (before ++ comma :: after) := by
  intro budget closer closing rest hbudget hcloser hclosing
  simp only [List.length_append, List.length_cons] at hbudget
  rcases Nat.exists_eq_add_one.mpr (show 0 < budget by omega) with ⟨left, rfl⟩
  have hnotCloser : ¬ IsSign comma closer := by
    intro hsame
    rcases hcloser with rfl | rfl <;> exact absurd (hcomma.unique hsame) (by decide)
  have hhead := BeginsWith.append (Derives.begins hderives)
    (comma :: (after ++ closing :: rest))
  simp only [List.append_assoc, List.cons_append]
  rw [readList, accept?_of_exprHead hcloser hhead]
  dsimp only
  rw [h _ _ (by omega) (.of_sign hcomma (by decide) _), bind_ok]
  dsimp only
  rw [accept?_cons_eq_none hnotCloser]
  dsimp only
  rw [expect_cons hcomma, bind_ok, hothers _ _ _ _ (by omega) hcloser hclosing]
  rfl

theorem exists_entryKey? {token : Token} {key : Text} (h : Keys token key) :
    ∃ named, entryKey? token = some named ∧ named.text = key := by
  cases h with
  | word hkind => exact ⟨.word token.text, by rw [entryKey?, hkind], rfl⟩
  | quoted hkind => exact ⟨.quoted (unquote token.text), by rw [entryKey?, hkind], rfl⟩
  | numeral hkind => exact ⟨.quoted token.text, by rw [entryKey?, hkind], rfl⟩

theorem readsBack_pair {token colon : Token} {key : Text} {tree : Expr} {after : List Token}
    (hkeys : Keys token key) (hcolon : IsSign colon ":")
    (h : ReadsBack (.expr .conditional tree) after) :
    ReadsBack (.entry key tree) (token :: colon :: after) := by
  intro budget rest hbudget hstops _
  simp only [List.length_cons] at hbudget
  rcases Nat.exists_eq_add_one.mpr (show 0 < budget by omega) with ⟨left, rfl⟩
  rcases exists_entryKey? hkeys with ⟨named, hnamed, rfl⟩
  rw [List.cons_append, List.cons_append, readEntry, hnamed]
  dsimp only
  rw [accept?_cons hcolon]
  dsimp only
  rw [h _ _ (by omega) hstops]
  rfl

theorem readsBack_shorthand {token : Token} (hkind : token.kind = .name) :
    ReadsBack (.entry token.text (.name token.text)) [token] := by
  intro budget rest hbudget _ hnoColon
  simp only [List.length_cons] at hbudget
  rcases Nat.exists_eq_add_one.mpr (show 0 < budget by omega) with ⟨left, rfl⟩
  rw [List.cons_append, List.nil_append, readEntry, entryKey?, hkind]
  dsimp only
  rw [hnoColon]

theorem readsBack_noEntry : ReadsBack (.entries []) [] := by
  intro budget closing rest hbudget hclosing
  rcases Nat.exists_eq_add_one.mpr (show 0 < budget by omega) with ⟨left, rfl⟩
  rw [List.nil_append, readEntries, accept?_cons hclosing]

theorem readsBack_lastEntry {key : Text} {tree : Expr} {tokens : List Token}
    (hderives : Derives (.entry key tree) tokens) (h : ReadsBack (.entry key tree) tokens) :
    ReadsBack (.entries [(key, tree)]) tokens := by
  intro budget closing rest hbudget hclosing
  rcases Nat.exists_eq_add_one.mpr (show 0 < budget by omega) with ⟨left, rfl⟩
  have hnoColon : ¬ IsSign closing ":" := fun hsame => absurd (hclosing.unique hsame) (by decide)
  have hhead := BeginsWith.append (Derives.begins hderives) (closing :: rest)
  rw [readEntries, accept?_of_entryHead hhead]
  dsimp only
  rw [h _ _ (by omega) (.of_sign hclosing (by decide) _) (accept?_cons_eq_none hnoColon _),
    bind_ok]
  dsimp only
  rw [accept?_cons hclosing]
  rfl

theorem readsBack_entries {key : Text} {tree : Expr} {others : List (Text × Expr)}
    {before after : List Token} {comma : Token} (hderives : Derives (.entry key tree) before)
    (h : ReadsBack (.entry key tree) before) (hcomma : IsSign comma ",")
    (hothers : ReadsBack (.entries others) after) :
    ReadsBack (.entries ((key, tree) :: others)) (before ++ comma :: after) := by
  intro budget closing rest hbudget hclosing
  simp only [List.length_append, List.length_cons] at hbudget
  rcases Nat.exists_eq_add_one.mpr (show 0 < budget by omega) with ⟨left, rfl⟩
  have hnoColon : ¬ IsSign comma ":" := fun hsame => absurd (hcomma.unique hsame) (by decide)
  have hnotCloser : ¬ IsSign comma "\x7d" :=
    fun hsame => absurd (hcomma.unique hsame) (by decide)
  have hhead := BeginsWith.append (Derives.begins hderives)
    (comma :: (after ++ closing :: rest))
  simp only [List.append_assoc, List.cons_append]
  rw [readEntries, accept?_of_entryHead hhead]
  dsimp only
  rw [h _ _ (by omega) (.of_sign hcomma (by decide) _) (accept?_cons_eq_none hnoColon _),
    bind_ok]
  dsimp only
  rw [accept?_cons_eq_none hnotCloser]
  dsimp only
  rw [expect_cons hcomma, bind_ok, hothers _ _ _ (by omega) hclosing]
  rfl

/-! # All phrases -/

theorem Derives.readsBack {phrase : Phrase} {tokens : List Token} (h : Derives phrase tokens) :
    ReadsBack phrase tokens := by
  induction h with
  | tighter hnext hderives ih => exact readsBack_tighter hnext hderives ih
  | choice _ hquestion _ hcolon _ htest hyes hno =>
      exact readsBack_choice htest hquestion hyes hcolon hno
  | joined hjoins hnext _ hsign _ hleft hright =>
      cases hjoins <;> exact readsBack_joined (by constructor) hnext hleft hsign hright
  | preceded hprecedes hsign _ ih => exact readsBack_preceded hprecedes hsign ih
  | property _ hdot hword ih => exact readsBack_property ih hdot hword
  | subscript _ hopening _ hclosing htarget hkey =>
      exact readsBack_subscript htarget hopening hkey hclosing
  | call _ hopening _ hclosing hcallee hargs =>
      exact readsBack_call hcallee hopening hargs hclosing
  | number hkind => exact readsBack_token (by rw [readPrimary, hkind]) (by simp [hkind])
  | string hkind => exact readsBack_token (by rw [readPrimary, hkind]) (by simp [hkind])
  | word hkind => exact readsBack_token (by rw [readPrimary, hkind]) (by simp [hkind])
  | group hopening _ hclosing ih => exact readsBack_group hopening ih hclosing
  | array hopening _ hclosing ih => exact readsBack_array hopening ih hclosing
  | object hopening _ hclosing ih => exact readsBack_object hopening ih hclosing
  | noItem => exact readsBack_noItem
  | lastItem hderives ih => exact readsBack_lastItem hderives ih
  | items hderives hcomma _ ih hothers => exact readsBack_items hderives ih hcomma hothers
  | pair hkeys hcolon _ ih => exact readsBack_pair hkeys hcolon ih
  | shorthand hkind => exact readsBack_shorthand hkind
  | noEntry => exact readsBack_noEntry
  | lastEntry hderives ih => exact readsBack_lastEntry hderives ih
  | entries hderives hcomma _ ih hothers => exact readsBack_entries hderives ih hcomma hothers

end Grammar
end Stencil
