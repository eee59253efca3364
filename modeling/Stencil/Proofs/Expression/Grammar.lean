import Stencil.Expression.Reader

/-!
# The grammar of expressions

A phrase is a row of tokens that stands for an expression, or for a part of one.
Expressions come in ten ranks, from the loosest to the tightest. The rules below
say which rows of tokens derive which trees; they know nothing of the order in
which a reader looks at the tokens.
-/

namespace Stencil
namespace Grammar

/-- How tightly an expression holds together. -/
inductive Rank where
  | conditional
  | or
  | and
  | equality
  | relational
  | additive
  | multiplicative
  | unary
  | suffixed
  | primary
deriving DecidableEq, Repr

def Rank.next? : Rank → Option Rank
  | conditional => some or
  | or => some and
  | and => some equality
  | equality => some relational
  | relational => some additive
  | additive => some multiplicative
  | multiplicative => some unary
  | unary => some suffixed
  | suffixed => some primary
  | primary => none

/-- What a row of tokens may stand for. -/
inductive Phrase where
  | expr (rank : Rank) (tree : Expr)
  | list (trees : List Expr)
  | entry (key : Text) (tree : Expr)
  | entries (pairs : List (Text × Expr))

def IsSign (token : Token) (sign : String) : Prop :=
  token.kind = .operator ∧ token.text = sign

inductive Joins : Rank → String → (Expr → Expr → Expr) → Prop where
  | or : Joins .or "||" (.logical .or)
  | and : Joins .and "&&" (.logical .and)
  | looseEqual : Joins .equality "==" (.binary .looseEqual)
  | looseUnequal : Joins .equality "!=" (.binary .looseUnequal)
  | strictEqual : Joins .equality "===" (.binary .strictEqual)
  | strictUnequal : Joins .equality "!==" (.binary .strictUnequal)
  | lt : Joins .relational "<" (.binary (.comparison .lt))
  | le : Joins .relational "<=" (.binary (.comparison .le))
  | gt : Joins .relational ">" (.binary (.comparison .gt))
  | ge : Joins .relational ">=" (.binary (.comparison .ge))
  | add : Joins .additive "+" (.binary (.arithmetic .add))
  | sub : Joins .additive "-" (.binary (.arithmetic .sub))
  | mul : Joins .multiplicative "*" (.binary (.arithmetic .mul))
  | div : Joins .multiplicative "/" (.binary (.arithmetic .div))
  | rem : Joins .multiplicative "%" (.binary (.arithmetic .rem))

inductive Precedes : String → UnaryOp → Prop where
  | not : Precedes "!" .not
  | minus : Precedes "-" .minus
  | plus : Precedes "+" .plus

inductive Keys : Token → Text → Prop where
  | word {token : Token} : token.kind = .name → Keys token token.text
  | quoted {token : Token} : token.kind = .string → Keys token (unquote token.text)
  | numeral {token : Token} : token.kind = .number → Keys token token.text

theorem Keys.ne_stop {token : Token} {key : Text} (h : Keys token key) :
    token.kind ≠ .stop := by
  cases h <;> simp_all

inductive Derives : Phrase → List Token → Prop where
  /-- A phrase of a tighter rank is one of each looser rank. -/
  | tighter {rank next : Rank} {tree : Expr} {tokens : List Token} :
      rank.next? = some next →
      Derives (.expr next tree) tokens →
      Derives (.expr rank tree) tokens
  | choice {test yes no : Expr} {before between after : List Token} {question colon : Token} :
      Derives (.expr .or test) before →
      IsSign question "?" →
      Derives (.expr .conditional yes) between →
      IsSign colon ":" →
      Derives (.expr .conditional no) after →
      Derives (.expr .conditional (.conditional test yes no))
        (before ++ question :: (between ++ colon :: after))
  /-- The left operand may hold the same operators again, the right one may not. -/
  | joined {rank next : Rank} {sign : String} {join : Expr → Expr → Expr} {left right : Expr}
      {before after : List Token} {operator : Token} :
      Joins rank sign join →
      rank.next? = some next →
      Derives (.expr rank left) before →
      IsSign operator sign →
      Derives (.expr next right) after →
      Derives (.expr rank (join left right)) (before ++ operator :: after)
  | preceded {sign : String} {op : UnaryOp} {operand : Expr} {operator : Token}
      {after : List Token} :
      Precedes sign op →
      IsSign operator sign →
      Derives (.expr .unary operand) after →
      Derives (.expr .unary (.unary op operand)) (operator :: after)
  | property {target : Expr} {before : List Token} {dot word : Token} :
      Derives (.expr .suffixed target) before →
      IsSign dot "." →
      word.kind = .name →
      Derives (.expr .suffixed (.member target (.literal (.str word.text))))
        (before ++ [dot, word])
  | subscript {target key : Expr} {before inner : List Token} {opening closing : Token} :
      Derives (.expr .suffixed target) before →
      IsSign opening "[" →
      Derives (.expr .conditional key) inner →
      IsSign closing "]" →
      Derives (.expr .suffixed (.member target key))
        (before ++ opening :: (inner ++ [closing]))
  | call {callee : Expr} {args : List Expr} {before inner : List Token}
      {opening closing : Token} :
      Derives (.expr .suffixed callee) before →
      IsSign opening "(" →
      Derives (.list args) inner →
      IsSign closing ")" →
      Derives (.expr .suffixed (.call callee args))
        (before ++ opening :: (inner ++ [closing]))
  | number {token : Token} :
      token.kind = .number →
      Derives (.expr .primary (Expr.ofNumber token.text)) [token]
  | string {token : Token} :
      token.kind = .string →
      Derives (.expr .primary (.literal (.str (unquote token.text)))) [token]
  | word {token : Token} :
      token.kind = .name →
      Derives (.expr .primary (Expr.ofWord token.text)) [token]
  | group {tree : Expr} {inner : List Token} {opening closing : Token} :
      IsSign opening "(" →
      Derives (.expr .conditional tree) inner →
      IsSign closing ")" →
      Derives (.expr .primary tree) (opening :: (inner ++ [closing]))
  | array {items : List Expr} {inner : List Token} {opening closing : Token} :
      IsSign opening "[" →
      Derives (.list items) inner →
      IsSign closing "]" →
      Derives (.expr .primary (.array items)) (opening :: (inner ++ [closing]))
  | object {pairs : List (Text × Expr)} {inner : List Token} {opening closing : Token} :
      IsSign opening "\x7b" →
      Derives (.entries pairs) inner →
      IsSign closing "\x7d" →
      Derives (.expr .primary (.object pairs)) (opening :: (inner ++ [closing]))
  | noItem : Derives (.list []) []
  | lastItem {tree : Expr} {tokens : List Token} :
      Derives (.expr .conditional tree) tokens →
      Derives (.list [tree]) tokens
  /-- No item need follow the comma. -/
  | items {tree : Expr} {others : List Expr} {before after : List Token} {comma : Token} :
      Derives (.expr .conditional tree) before →
      IsSign comma "," →
      Derives (.list others) after →
      Derives (.list (tree :: others)) (before ++ comma :: after)
  | pair {token colon : Token} {key : Text} {tree : Expr} {after : List Token} :
      Keys token key →
      IsSign colon ":" →
      Derives (.expr .conditional tree) after →
      Derives (.entry key tree) (token :: colon :: after)
  /-- A name by itself is the key and the name of the value. -/
  | shorthand {token : Token} :
      token.kind = .name →
      Derives (.entry token.text (.name token.text)) [token]
  | noEntry : Derives (.entries []) []
  | lastEntry {key : Text} {tree : Expr} {tokens : List Token} :
      Derives (.entry key tree) tokens →
      Derives (.entries [(key, tree)]) tokens
  | entries {key : Text} {tree : Expr} {others : List (Text × Expr)}
      {before after : List Token} {comma : Token} :
      Derives (.entry key tree) before →
      IsSign comma "," →
      Derives (.entries others) after →
      Derives (.entries ((key, tree) :: others)) (before ++ comma :: after)

section Ranks

variable {tree : Expr} {tokens : List Token}

theorem Derives.of_suffixed (h : Derives (.expr .suffixed tree) tokens) :
    Derives (.expr .conditional tree) tokens :=
  .tighter rfl <| .tighter rfl <| .tighter rfl <| .tighter rfl <| .tighter rfl <|
    .tighter rfl <| .tighter rfl <| .tighter rfl h

theorem Derives.of_primary (h : Derives (.expr .primary tree) tokens) :
    Derives (.expr .conditional tree) tokens :=
  .of_suffixed (.tighter rfl h)

end Ranks

/-!
# First tokens

What a phrase begins with tells its rank from the closing signs and from the signs
before operands.
-/

/-- The first tokens of operands with all that follows them closely. -/
inductive OperandHead : Token → Prop where
  | number {token : Token} : token.kind = .number → OperandHead token
  | string {token : Token} : token.kind = .string → OperandHead token
  | name {token : Token} : token.kind = .name → OperandHead token
  | group {token : Token} : IsSign token "(" → OperandHead token
  | array {token : Token} : IsSign token "[" → OperandHead token
  | object {token : Token} : IsSign token "\x7b" → OperandHead token

inductive ExprHead : Token → Prop where
  | operand {token : Token} : OperandHead token → ExprHead token
  | preceded {token : Token} {sign : String} {op : UnaryOp} :
      Precedes sign op → IsSign token sign → ExprHead token

def EntryHead (token : Token) : Prop :=
  token.kind ≠ .operator

def BeginsWith (head : Token → Prop) (tokens : List Token) : Prop :=
  ∃ token rest, tokens = token :: rest ∧ head token

theorem BeginsWith.append {head : Token → Prop} {tokens : List Token}
    (h : BeginsWith head tokens) (more : List Token) :
    BeginsWith head (tokens ++ more) := by
  rcases h with ⟨token, rest, rfl, hhead⟩
  exact ⟨token, rest ++ more, rfl, hhead⟩

theorem BeginsWith.mono {head loose : Token → Prop} {tokens : List Token}
    (h : BeginsWith head tokens) (hloose : ∀ token, head token → loose token) :
    BeginsWith loose tokens := by
  rcases h with ⟨token, rest, rfl, hhead⟩
  exact ⟨token, rest, rfl, hloose token hhead⟩

theorem BeginsWith.length_pos {head : Token → Prop} {tokens : List Token}
    (h : BeginsWith head tokens) :
    0 < tokens.length := by
  rcases h with ⟨token, rest, rfl, _⟩
  exact Nat.succ_pos rest.length

def Phrase.Begins : Phrase → List Token → Prop
  | expr .suffixed _, tokens => BeginsWith OperandHead tokens
  | expr .primary _, tokens => BeginsWith OperandHead tokens
  | expr _ _, tokens => BeginsWith ExprHead tokens
  | entry _ _, tokens => BeginsWith EntryHead tokens
  | list _, _ => True
  | entries _, _ => True

theorem Phrase.Begins.exprHead {rank : Rank} {tree : Expr} {tokens : List Token}
    (h : (Phrase.expr rank tree).Begins tokens) :
    BeginsWith ExprHead tokens := by
  cases rank with
  | suffixed => exact BeginsWith.mono h fun _ => .operand
  | primary => exact BeginsWith.mono h fun _ => .operand
  | _ => exact h

theorem Derives.begins {phrase : Phrase} {tokens : List Token} (h : Derives phrase tokens) :
    phrase.Begins tokens := by
  induction h with
  | @tighter rank next tree tokens hnext _ ih =>
      cases rank with
      | suffixed =>
          cases hnext
          exact ih
      | primary => cases hnext
      | _ => exact ih.exprHead
  | choice _ _ _ _ _ ih => exact ih.append _
  | joined hjoins _ _ _ _ ih =>
      cases hjoins <;> exact ih.append _
  | preceded hprecedes hsign => exact ⟨_, _, rfl, .preceded hprecedes hsign⟩
  | property _ _ _ ih => exact ih.append _
  | subscript _ _ _ _ ih => exact ih.append _
  | call _ _ _ _ ih => exact ih.append _
  | number hkind => exact ⟨_, _, rfl, .number hkind⟩
  | string hkind => exact ⟨_, _, rfl, .string hkind⟩
  | word hkind => exact ⟨_, _, rfl, .name hkind⟩
  | group hsign => exact ⟨_, _, rfl, .group hsign⟩
  | array hsign => exact ⟨_, _, rfl, .array hsign⟩
  | object hsign => exact ⟨_, _, rfl, .object hsign⟩
  | pair hkeys =>
      refine ⟨_, _, rfl, ?_⟩
      cases hkeys <;> simp_all [EntryHead]
  | shorthand hkind => exact ⟨_, _, rfl, by simp [EntryHead, hkind]⟩
  | noItem => trivial
  | lastItem => trivial
  | items => trivial
  | noEntry => trivial
  | lastEntry => trivial
  | entries => trivial

theorem Derives.ne_stop {phrase : Phrase} {tokens : List Token} (h : Derives phrase tokens) :
    ∀ token ∈ tokens, token.kind ≠ .stop := by
  induction h with
  | pair hkeys => simp_all [IsSign, hkeys.ne_stop]
  | _ => simp_all [IsSign, or_imp]

end Grammar
end Stencil
