import Mathlib
import Stencil.Engine.Helpers
import Stencil.Proofs.Expression.Occurrences
import Stencil.Proofs.Expression.Rows

/-!
# Words that stand for values

A name token is the property of an object, the key of an entry, or it stands for a value. Which of
these it is can be told from the brackets that are open and from the tokens beside it, without a
tree. The words that stand for values, from left to right, are the names, the keywords and the
receivers of the tree. Only a word that is an entry by itself is a name in any case, also if it is
reserved.
-/

namespace Stencil

/-! # The words of a tree -/

namespace Expr

def isWord : Expr → Bool
  | .name _ => true
  | .this => true
  | .literal (.bool _) => true
  | .literal .null => true
  | .literal .undefined => true
  | _ => false

def parts (e : Expr) : List Expr :=
  (e.occurrences .leftToRight []).map (·.expr)

def words (e : Expr) : List Expr :=
  e.parts.filter isWord

theorem map_expr_occurrences (way : Way) (e : Expr) :
    (e.occurrences .leftToRight way).map (·.expr) = e.parts := by
  unfold parts
  generalize [] = other
  induction e using induction_operands generalizing way other with
  | step e ih =>
      rw [occurrences_eq, occurrences_eq, List.map_append, List.map_append, List.map_flatMap,
        List.map_flatMap]
      congr 1
      refine List.flatMap_congr fun turn hturn => ?_
      exact ih turn.1 (mem_operands_of_mem_turns hturn) _ _

theorem parts_eq (e : Expr) : e.parts = e.operands.flatMap parts ++ [e] := by
  have hturns : (e.turns .leftToRight).flatMap (fun turn => turn.1.parts) =
      e.operands.flatMap parts := by
    rw [← List.flatMap_map Prod.fst parts]
    exact congrArg (List.flatMap parts) (List.zipIdx_map_fst 0 e.operands)
  rw [← hturns, parts, occurrences_eq, List.map_append, List.map_flatMap]
  simp only [map_expr_occurrences, List.map_cons, List.map_nil]

theorem words_eq (e : Expr) :
    e.words = e.operands.flatMap words ++ if e.isWord then [e] else [] := by
  rw [words, parts_eq, List.filter_append, List.filter_flatMap]
  congr 1
  cases hword : e.isWord <;> simp [hword]

theorem mem_words {e : Expr} {name : String} : .name name ∈ e.words ↔ .name name ∈ e.parts := by
  rw [words, List.mem_filter, isWord, and_iff_left rfl]

theorem words_ofWord (word : String) : (ofWord word).words = [ofWord word] := by
  rw [words_eq]
  unfold ofWord
  split <;> rfl

theorem words_name (name : String) : (Expr.name name).words = [.name name] := by
  rw [words_eq]
  rfl

theorem words_ofNumber (text : String) : (ofNumber text).words = [] := by
  rw [words_eq, ofNumber]
  split <;> rfl

theorem words_text (text : Text) : (Expr.literal (.str text)).words = [] := by
  rw [words_eq]
  rfl

theorem words_of_not_isWord {e : Expr} (h : e.isWord = false) :
    e.words = e.operands.flatMap words := by
  rw [words_eq, h]
  exact List.append_nil _

theorem words_conditional (test yes no : Expr) :
    (Expr.conditional test yes no).words = test.words ++ (yes.words ++ no.words) := by
  rw [words_of_not_isWord rfl]
  show [test, yes, no].flatMap words = _
  rw [List.flatMap_cons, List.flatMap_cons, List.flatMap_singleton]

theorem words_unary (op : UnaryOp) (operand : Expr) :
    (Expr.unary op operand).words = operand.words := by
  rw [words_of_not_isWord rfl]
  exact List.flatMap_singleton _ _

theorem words_member (target key : Expr) :
    (Expr.member target key).words = target.words ++ key.words := by
  rw [words_of_not_isWord rfl]
  show [target, key].flatMap words = _
  rw [List.flatMap_cons, List.flatMap_singleton]

theorem words_call (callee : Expr) (args : List Expr) :
    (Expr.call callee args).words = callee.words ++ args.flatMap words := by
  rw [words_of_not_isWord rfl]
  rfl

theorem words_array (items : List Expr) : (Expr.array items).words = items.flatMap words := by
  rw [words_of_not_isWord rfl]
  rfl

theorem words_object (pairs : List (Text × Expr)) :
    (Expr.object pairs).words = pairs.flatMap (·.2.words) := by
  rw [words_of_not_isWord rfl]
  exact List.flatMap_map Prod.snd words pairs

end Expr

/-! # The words of a row of tokens -/

/-- What a name at some place in a row of tokens is. -/
inductive Footing where
  | value
  | property
  | key
deriving DecidableEq

/-- A word that stands for a value, either as an operand or as an entry by itself. -/
structure WordUse where
  word : String
  shorthand : Bool
deriving DecidableEq

namespace WordUse

/-- What the reader makes of a word: an entry by itself is always a name. -/
def expr (use : WordUse) : Expr :=
  if use.shorthand then .name use.word else .ofWord use.word

end WordUse

def openedAfter (opened : List String) (token : Token) : List String :=
  if token.kind != .operator then opened
  else if token.text == "(" || token.text == "[" || token.text == "\x7b" then token.text :: opened
  else if token.text == ")" || token.text == "]" || token.text == "\x7d" then opened.tail
  else opened

/-- What a name behind a token is, where some brackets are open before the token. -/
def footingAfter (opened : List String) (token : Token) : Footing :=
  if token.kind != .operator then .value
  else if token.text == "." then .property
  else if token.text == "\x7b" then .key
  else if token.text == "," && opened.head? == some "\x7b" then .key
  else .value

/-- The token as a word that stands for a value, if it is one; a colon makes a key of it. -/
def wordAt (footing : Footing) (token : Token) (rest : List Token) : List WordUse :=
  if token.kind != .name then []
  else
    match footing with
    | .value => [⟨token.text, false⟩]
    | .property => []
    | .key => if (Expr.accept? ":" rest).isSome then [] else [⟨token.text, true⟩]

def wordsFrom (opened : List String) (footing : Footing) : List Token → List WordUse
  | [] => []
  | token :: rest =>
      wordAt footing token rest ++
        wordsFrom (openedAfter opened token) (footingAfter opened token) rest

def wordUses (tokens : List Token) : List WordUse :=
  wordsFrom [] .value tokens

namespace Grammar

open Stencil.Expr

/-! # Scanning a phrase -/

section Signs

variable {opened : List String} {footing : Footing} {token : Token} {sign : String}
  (h : IsSign token sign) (rest : List Token)

include h

theorem wordsFrom_sign :
    wordsFrom opened footing (token :: rest) =
      wordsFrom (openedAfter opened token) (footingAfter opened token) rest := by
  rw [wordsFrom]
  simp [wordAt, h.1]

theorem wordsFrom_plain
    (hplain : sign ∉ ["(", "[", "\x7b", ")", "]", "\x7d", ".", ","]) :
    wordsFrom opened footing (token :: rest) = wordsFrom opened .value rest := by
  simp only [List.mem_cons, List.not_mem_nil, or_false, not_or] at hplain
  rw [wordsFrom_sign h]
  simp [openedAfter, footingAfter, h.1, h.2, hplain]

end Signs

section Brackets

variable {opened : List String} {footing : Footing} {token : Token} (rest : List Token)

theorem wordsFrom_opening {sign : String} (h : IsSign token sign)
    (hsign : sign = "(" ∨ sign = "[") :
    wordsFrom opened footing (token :: rest) = wordsFrom (sign :: opened) .value rest := by
  rw [wordsFrom_sign h]
  rcases hsign with rfl | rfl <;> simp [openedAfter, footingAfter, h.1, h.2]

theorem wordsFrom_brace (h : IsSign token "\x7b") :
    wordsFrom opened footing (token :: rest) = wordsFrom ("\x7b" :: opened) .key rest := by
  rw [wordsFrom_sign h]
  simp [openedAfter, footingAfter, h.1, h.2]

theorem wordsFrom_closing {sign : String} (h : IsSign token sign)
    (hsign : sign = ")" ∨ sign = "]" ∨ sign = "\x7d") :
    wordsFrom opened footing (token :: rest) = wordsFrom opened.tail .value rest := by
  rw [wordsFrom_sign h]
  rcases hsign with rfl | rfl | rfl <;> simp [openedAfter, footingAfter, h.1, h.2]

theorem wordsFrom_comma (h : IsSign token ",") :
    wordsFrom opened footing (token :: rest) =
      wordsFrom opened (if opened.head? = some "\x7b" then .key else .value) rest := by
  rw [wordsFrom_sign h]
  simp [openedAfter, footingAfter, h.1, h.2]

theorem wordsFrom_property {word : Token} (h : IsSign token ".") (hword : word.kind = .name) :
    wordsFrom opened footing (token :: word :: rest) = wordsFrom opened .value rest := by
  rw [wordsFrom_sign h, wordsFrom]
  simp [openedAfter, footingAfter, wordAt, h.1, h.2, hword]

theorem wordsFrom_operand (h : token.kind ≠ .operator) :
    wordsFrom opened footing (token :: rest) =
      wordAt footing token rest ++ wordsFrom opened .value rest := by
  rw [wordsFrom]
  simp [openedAfter, footingAfter, h]

end Brackets

def Phrase.words : Phrase → List Expr
  | expr _ tree => tree.words
  | list trees => trees.flatMap Expr.words
  | entry _ tree => tree.words
  | entries pairs => pairs.flatMap (·.2.words)

/-- Where a phrase of a kind may stand: which brackets are open, and what may follow. -/
def Phrase.Fits : Phrase → List String → List Token → Prop
  | expr _ _, _, _ => True
  | list _, opened, _ => opened.head? ≠ some "\x7b"
  | entry _ _, _, rest => accept? ":" rest = none
  | entries _, opened, rest =>
      opened.head? = some "\x7b" ∧ ∃ closing more, rest = closing :: more ∧ IsSign closing "\x7d"

def Phrase.footing : Phrase → Footing
  | expr _ _ => .value
  | list _ => .value
  | entry _ _ => .key
  | entries _ => .key

theorem Derives.words_eq {phrase : Phrase} {tokens : List Token} (h : Derives phrase tokens)
    {opened : List String} {rest : List Token} (hfits : phrase.Fits opened rest) :
    (wordsFrom opened phrase.footing (tokens ++ rest)).map WordUse.expr =
      phrase.words ++ (wordsFrom opened .value rest).map WordUse.expr := by
  induction h generalizing opened rest with
  | tighter _ _ ih => exact ih trivial
  | @choice test yes no before between after question colon _ hquestion _ hcolon _ iht ihy ihn =>
      simp only [List.append_assoc, List.cons_append, Phrase.words, Phrase.footing] at iht ihy ihn ⊢
      rw [iht trivial, wordsFrom_plain hquestion _ (by decide), ihy trivial,
        wordsFrom_plain hcolon _ (by decide), ihn trivial, words_conditional]
      simp only [List.append_assoc]
  | @joined rank next sign join left right before after operator hjoins _ _ hoperator _ ihl ihr =>
      have hplain : sign ∉ ["(", "[", "\x7b", ")", "]", "\x7d", ".", ","] := by
        cases hjoins <;> decide
      have hwords : (join left right).words = left.words ++ right.words := by
        rw [Expr.words_eq]
        cases hjoins <;> simp [operands, isWord]
      simp only [List.append_assoc, List.cons_append, Phrase.words, Phrase.footing] at ihl ihr ⊢
      rw [ihl trivial, wordsFrom_plain hoperator _ hplain, ihr trivial, hwords, List.append_assoc]
  | @preceded sign op operand operator after hprecedes hoperator _ ih =>
      have hplain : sign ∉ ["(", "[", "\x7b", ")", "]", "\x7d", ".", ","] := by
        cases hprecedes <;> decide
      simp only [List.cons_append, Phrase.words, Phrase.footing] at ih ⊢
      rw [wordsFrom_plain hoperator _ hplain, ih trivial, words_unary]
  | @property target before dot word _ hdot hword ih =>
      simp only [List.append_assoc, List.cons_append, List.nil_append, Phrase.words,
        Phrase.footing] at ih ⊢
      rw [ih trivial, wordsFrom_property _ hdot hword, words_member, words_text, List.append_nil]
  | @subscript target key before inner opening closing _ hopening _ hclosing iht ihk =>
      simp only [List.append_assoc, List.cons_append, List.nil_append, Phrase.words,
        Phrase.footing] at iht ihk ⊢
      rw [iht trivial, wordsFrom_opening _ hopening (.inr rfl), ihk trivial,
        wordsFrom_closing _ hclosing (by simp), words_member, List.append_assoc]
      rfl
  | @call callee args before inner opening closing _ hopening _ hclosing ihc iha =>
      simp only [List.append_assoc, List.cons_append, List.nil_append, Phrase.words,
        Phrase.footing] at ihc iha ⊢
      rw [ihc trivial, wordsFrom_opening _ hopening (.inl rfl), iha (by simp [Phrase.Fits]),
        wordsFrom_closing _ hclosing (by simp), words_call, List.append_assoc]
      rfl
  | @number token hkind =>
      simp only [List.cons_append, List.nil_append, Phrase.words, Phrase.footing]
      rw [wordsFrom_operand _ (by simp [hkind]), words_ofNumber]
      simp [wordAt, hkind]
  | @string token hkind =>
      simp only [List.cons_append, List.nil_append, Phrase.words, Phrase.footing]
      rw [wordsFrom_operand _ (by simp [hkind]), words_text]
      simp [wordAt, hkind]
  | @word token hkind =>
      simp only [List.cons_append, List.nil_append, Phrase.words, Phrase.footing]
      rw [wordsFrom_operand _ (by simp [hkind]), words_ofWord]
      simp [wordAt, hkind, WordUse.expr]
  | @group tree inner opening closing hopening _ hclosing ih =>
      simp only [List.append_assoc, List.cons_append, List.nil_append, Phrase.words,
        Phrase.footing] at ih ⊢
      rw [wordsFrom_opening _ hopening (.inl rfl), ih trivial,
        wordsFrom_closing _ hclosing (by simp)]
      rfl
  | @array items inner opening closing hopening _ hclosing ih =>
      simp only [List.append_assoc, List.cons_append, List.nil_append, Phrase.words,
        Phrase.footing] at ih ⊢
      rw [wordsFrom_opening _ hopening (.inr rfl), ih (by simp [Phrase.Fits]),
        wordsFrom_closing _ hclosing (by simp), words_array]
      rfl
  | @object pairs inner opening closing hopening _ hclosing ih =>
      simp only [List.append_assoc, List.cons_append, List.nil_append, Phrase.words,
        Phrase.footing] at ih ⊢
      rw [wordsFrom_brace _ hopening, ih ⟨rfl, closing, rest, rfl, hclosing⟩,
        wordsFrom_closing _ hclosing (by simp), words_object]
      rfl
  | noItem => rfl
  | lastItem _ ih =>
      rw [Phrase.words, List.flatMap_cons, List.flatMap_nil, List.append_nil]
      exact ih trivial
  | @items tree others before after comma _ hcomma _ ihf iho =>
      have hopened : opened.head? ≠ some "\x7b" := hfits
      simp only [List.append_assoc, List.cons_append, Phrase.words, Phrase.footing,
        List.flatMap_cons] at ihf iho ⊢
      rw [ihf trivial, wordsFrom_comma _ hcomma, if_neg hopened, iho hfits]
  | @pair token colon key tree after hkeys hcolon _ ih =>
      have haccept : (accept? ":" (colon :: (after ++ rest))).isSome = true := by
        simp [accept?, Token.isOperator, hcolon.1, hcolon.2]
      have hkey : wordAt .key token (colon :: (after ++ rest)) = [] := by
        simp [wordAt, haccept]
      have hoperand : token.kind ≠ .operator := by
        cases hkeys <;> simp_all
      simp only [List.cons_append, Phrase.words, Phrase.footing] at ih ⊢
      rw [wordsFrom_operand _ hoperand, hkey, List.nil_append,
        wordsFrom_plain hcolon _ (by decide), ih trivial]
  | @shorthand token hkind =>
      have hnone : accept? ":" rest = none := hfits
      simp only [List.cons_append, List.nil_append, Phrase.words, Phrase.footing]
      rw [wordsFrom_operand _ (by simp [hkind]), words_name]
      simp [wordAt, hkind, hnone, WordUse.expr]
  | noEntry =>
      rcases hfits with ⟨_, closing, more, rfl, hclosing⟩
      simp only [List.nil_append, Phrase.words, Phrase.footing, List.flatMap_nil]
      rw [wordsFrom_sign hclosing, wordsFrom_sign hclosing]
  | lastEntry _ ih =>
      rcases hfits with ⟨_, closing, more, rfl, hclosing⟩
      have hnone : accept? ":" (closing :: more) = none := by
        simp [accept?, Token.isOperator, hclosing.1, hclosing.2]
      rw [Phrase.words, List.flatMap_cons, List.flatMap_nil, List.append_nil]
      exact ih hnone
  | @entries key tree others before after comma _ hcomma _ ihf iho =>
      have hnone : accept? ":" (comma :: (after ++ rest)) = none := by
        simp [accept?, Token.isOperator, hcomma.1, hcomma.2]
      simp only [List.append_assoc, List.cons_append, Phrase.words, Phrase.footing,
        List.flatMap_cons] at ihf iho ⊢
      rw [ihf hnone, wordsFrom_comma _ hcomma, if_pos hfits.1, iho hfits]

/-! # Reserved words -/

theorem ofWord_ne_name {word name : String} (h : name ∈ Helpers.reservedWords) :
    ofWord word ≠ .name name := by
  intro hname
  unfold ofWord at hname
  split at hname
  case h_6 =>
    cases hname
    simp_all [Helpers.reservedWords]
  all_goals cases hname

/--
The names, keywords and receivers in a tree are what the words of its text that stand for values
denote, in their order. A reserved word is a name in the tree only if it is an entry by itself.
-/
theorem words_of_compile {source : String} {tree : Expr} (h : compile source = .ok tree) :
    ∃ tokens, tokenize (Text.strip source) = .ok tokens ∧
      tree.words = (wordUses tokens).map WordUse.expr ∧
      ∀ name ∈ Helpers.reservedWords, .name name ∈ tree.parts ↔ ⟨name, true⟩ ∈ wordUses tokens := by
  rcases bind_eq_ok_iff.mp h with ⟨tokens, htokens, -⟩
  have hderives := (compile_eq_ok_iff htokens tree).mp h
  rcases stopsAtEnd_tokenize htokens with ⟨body, stop, rfl, hstop, -⟩
  rw [List.dropLast_concat] at hderives
  have hend : wordsFrom [] .value [stop] = [] := by
    simp [wordsFrom, wordAt, hstop]
  have hwords : tree.words = (wordUses (body ++ [stop])).map WordUse.expr := by
    have hscan : (wordsFrom [] .value (body ++ [stop])).map WordUse.expr =
        tree.words ++ (wordsFrom [] .value [stop]).map WordUse.expr := hderives.words_eq trivial
    rw [hend, List.map_nil, List.append_nil] at hscan
    exact hscan.symm
  refine ⟨body ++ [stop], htokens, hwords, fun name hname => ?_⟩
  rw [← mem_words, hwords, List.mem_map]
  constructor
  · rintro ⟨⟨word, shorthand⟩, huse, hexpr⟩
    cases shorthand with
    | true =>
        cases hexpr
        exact huse
    | false => exact absurd hexpr (ofWord_ne_name hname)
  · intro huse
    exact ⟨⟨name, true⟩, huse, rfl⟩

theorem words_of_compile_mixed :
    let source := "true ? \x7bthis, n: null\x7d.undefined : f"
    let tree := Expr.conditional (.literal (.bool true))
      (.member (.object [("this", .name "this"), ("n", .literal .null)])
        (.literal (.str "undefined")))
      (.name "f")
    compile source = .ok tree ∧
      ∃ tokens, tokenize (Text.strip source) = .ok tokens ∧
        tree.words = (wordUses tokens).map WordUse.expr ∧
        ∀ name ∈ Helpers.reservedWords,
          .name name ∈ tree.parts ↔ ⟨name, true⟩ ∈ wordUses tokens := by
  intro source tree
  have hcompiled : compile source = .ok tree := by
    cbv
  exact ⟨hcompiled, words_of_compile hcompiled⟩

/-- An entry by itself is looked up as a name, also if it is a keyword. -/
theorem keyword_looked_up :
    compile "\x7btrue\x7d" = .ok (.object [("true", .name "true")]) ∧
      "true" ∈ Helpers.reservedWords ∧
      .name "true" ∈ (Expr.object [("true", .name "true")]).parts := by
  refine ⟨by cbv, by decide, ?_⟩
  rw [parts_eq]
  simp [operands, parts_eq (.name "true")]

end Grammar
end Stencil
