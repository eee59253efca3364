import Mathlib.Data.List.TakeWhile
import Stencil.Proofs.Expression.Rows
import Stencil.View.Directive

/-!
# How tokens are spelled

A row of tokens is spelled as a text if the text is made of their spellings, in the
order of the row, with white space anywhere between them. Every row that the scanner
returns is spelled as the text it was read from. Unlike the scanner, the relation can
be taken apart wherever a row of tokens can.
-/

namespace Stencil
namespace Grammar

/-! # Quotes -/

theorem eq_of_isQuote {c : Char} (h : isQuote c = true) : c = '"' ∨ c = '\'' := by
  simpa [isQuote] using h

theorem isBlank_of_isQuote {c : Char} (h : isQuote c = true) : Text.isBlank c = false := by
  rcases eq_of_isQuote h with rfl | rfl <;> decide

theorem ne_slash_of_isQuote {c : Char} (h : isQuote c = true) : c ≠ '\\' := by
  rcases eq_of_isQuote h with rfl | rfl <;> decide

/-! # Single tokens -/

inductive QuotedBody (mark : Char) : List Char → Prop where
  | nil : QuotedBody mark []
  | escaped {c : Char} {rest : List Char} :
      QuotedBody mark rest → QuotedBody mark ('\\' :: c :: rest)
  | plain {c : Char} {rest : List Char} :
      c ≠ mark → c ≠ '\\' → QuotedBody mark rest → QuotedBody mark (c :: rest)

def IsNumberChar (c : Char) : Prop :=
  Text.isDigit c = true ∨ c ∈ ['.', 'e', 'E', '+', '-']

/-- What the tokens of a kind are spelled as. -/
def SpellsKind : TokenKind → List Char → Prop
  | .number, w => ∀ c ∈ w, IsNumberChar c
  | .string, w =>
      ∃ mark body, isQuote mark = true ∧ QuotedBody mark body ∧ w = mark :: (body ++ [mark])
  | .name, w => isName w = true
  | .operator, w => w ∈ longOperators ∨ ∃ c ∈ shortOperators, w = [c]
  | .stop, _ => False

inductive Spells : List Token → List Char → Prop where
  | nil : Spells [] []
  | blank {tokens : List Token} {c : Char} {cs : List Char} :
      Text.isBlank c = true → Spells tokens cs → Spells tokens (c :: cs)
  | token {token : Token} {tokens : List Token} {w cs : List Char} :
      SpellsKind token.kind w → token.text = String.ofList w → Spells tokens cs →
      Spells (token :: tokens) (w ++ cs)

/-! # Taking spellings apart -/

theorem Spells.blanks {tokens : List Token} {cs : List Char} (h : Spells tokens cs)
    {blanks : List Char} (hblanks : ∀ c ∈ blanks, Text.isBlank c = true) :
    Spells tokens (blanks ++ cs) := by
  induction blanks with
  | nil => exact h
  | cons c rest ih =>
      refine .blank (hblanks c (by simp)) (ih ?_)
      intro d hd
      exact hblanks d (List.mem_cons_of_mem c hd)

theorem Spells.blank_of_nil {cs : List Char} (h : Spells [] cs) :
    ∀ c ∈ cs, Text.isBlank c = true := by
  generalize htokens : ([] : List Token) = tokens at h
  induction h with
  | nil => simp
  | blank hc _ ih => simpa [hc] using ih htokens
  | token => cases htokens

theorem Spells.exists_of_cons {token : Token} {tokens : List Token} {cs : List Char}
    (h : Spells (token :: tokens) cs) :
    ∃ blanks w rest, cs = blanks ++ (w ++ rest) ∧ (∀ c ∈ blanks, Text.isBlank c = true) ∧
      SpellsKind token.kind w ∧ token.text = String.ofList w ∧ Spells tokens rest := by
  generalize hall : token :: tokens = all at h
  induction h with
  | nil => cases hall
  | @blank _ c _ hc _ ih =>
      rcases ih hall with ⟨blanks, w, rest, rfl, hblanks, hrest⟩
      refine ⟨c :: blanks, w, rest, rfl, ?_, hrest⟩
      simpa [hc] using hblanks
  | @token _ _ w cs hkind htext hcs =>
      cases hall
      exact ⟨[], w, cs, rfl, by simp, hkind, htext, hcs⟩

theorem Spells.exists_of_append {before after : List Token} {cs : List Char}
    (h : Spells (before ++ after) cs) :
    ∃ front back, cs = front ++ back ∧ Spells before front ∧ Spells after back := by
  induction before generalizing cs with
  | nil => exact ⟨[], cs, rfl, .nil, h⟩
  | cons token rest ih =>
      rcases h.exists_of_cons with ⟨blanks, w, others, rfl, hblanks, hkind, htext, hrest⟩
      rcases ih hrest with ⟨front, back, rfl, hfront, hback⟩
      refine ⟨blanks ++ (w ++ front), back, by simp, ?_, hback⟩
      exact (Spells.token hkind htext hfront).blanks hblanks

/-! # What the scanner takes -/

theorem forall_mem_take_add {p : Char → Prop} {cs : List Char} {m n : Nat}
    (hfirst : ∀ c ∈ cs.take m, p c) (hsecond : ∀ c ∈ (cs.drop m).take n, p c) :
    ∀ c ∈ cs.take (m + n), p c := by
  intro c hc
  rw [List.take_add, List.mem_append] at hc
  cases hc with
  | inl hc => exact hfirst c hc
  | inr hc => exact hsecond c hc

theorem take_length_takeWhile (p : Char → Bool) (cs : List Char) :
    cs.take (cs.takeWhile p).length = cs.takeWhile p := by
  induction cs with
  | nil => rfl
  | cons c rest ih =>
      cases hc : p c with
      | false => simp [hc]
      | true => simp [hc, ih]

theorem isNumberChar_of_mem_digits {cs : List Char} :
    ∀ c ∈ cs.take (digitLength cs), IsNumberChar c := by
  intro c hc
  rw [digitLength, take_length_takeWhile] at hc
  exact .inl (List.mem_takeWhile_imp hc)

theorem isNumberChar_of_mem_fraction {cs : List Char} :
    ∀ c ∈ cs.take (fractionLength cs), IsNumberChar c := by
  unfold fractionLength
  split
  · rename_i rest
    split
    · simp
    · rw [Nat.add_comm, List.take_succ_cons]
      intro c hc
      cases hc with
      | head => exact .inr (by decide)
      | tail _ hc => exact isNumberChar_of_mem_digits c hc
  · simp

theorem isNumberChar_of_mem_sign {cs : List Char} {n : Nat}
    (h : (match cs with
      | s :: _ => if s == '+' || s == '-' then 1 else 0
      | [] => 0) = n) :
    ∀ c ∈ cs.take n, IsNumberChar c := by
  subst h
  cases cs with
  | nil => simp
  | cons s rest =>
      dsimp only
      split
      · rename_i hsign
        intro c hc
        simp only [List.take_succ_cons, List.take_zero, List.mem_singleton] at hc
        subst hc
        simp only [Bool.or_eq_true, beq_iff_eq] at hsign
        rcases hsign with rfl | rfl <;> exact .inr (by decide)
      · simp

theorem isNumberChar_of_mem_exponent {cs : List Char} :
    ∀ c ∈ cs.take (exponentLength cs), IsNumberChar c := by
  unfold exponentLength
  cases cs with
  | nil => simp
  | cons mark rest =>
      dsimp only
      split_ifs with hmark hdigits
      · simp
      · rw [Nat.add_assoc, Nat.add_comm 1, List.take_succ_cons]
        intro c hc
        cases hc with
        | head =>
            simp only [Bool.or_eq_true, beq_iff_eq] at hmark
            rcases hmark with rfl | rfl <;> exact .inr (by decide)
        | tail _ hc =>
            exact forall_mem_take_add (isNumberChar_of_mem_sign rfl)
              isNumberChar_of_mem_digits c hc
      · simp

theorem spellsKind_number (cs : List Char) :
    SpellsKind .number (cs.take (numberLength cs)) := by
  show ∀ c ∈ cs.take (numberLength cs), IsNumberChar c
  have hmantissa :
      ∀ c ∈ cs.take (digitLength cs + fractionLength (cs.drop (digitLength cs))),
        IsNumberChar c :=
    forall_mem_take_add isNumberChar_of_mem_digits isNumberChar_of_mem_fraction
  unfold numberLength
  dsimp only
  split
  · simp
  · exact forall_mem_take_add hmantissa isNumberChar_of_mem_exponent

theorem exists_of_bodyLength? {mark : Char} {cs : List Char} {n : Nat}
    (h : bodyLength? mark cs = some n) :
    ∃ body rest, cs = body ++ mark :: rest ∧ QuotedBody mark body ∧ n = body.length := by
  induction cs using bodyLength?.induct mark generalizing n with
  | case1 => cases h
  | case2 c rest hmark =>
      rw [bodyLength?.eq_def] at h
      dsimp only at h
      rw [if_pos hmark] at h
      cases h
      rw [beq_iff_eq] at hmark
      exact ⟨[], rest, by simp [hmark], .nil, rfl⟩
  | case3 c hmark hslash next after ih =>
      rw [bodyLength?, if_neg hmark, if_pos hslash] at h
      rcases Option.map_eq_some_iff.mp h with ⟨m, hm, rfl⟩
      rcases ih hm with ⟨body, rest, rfl, hbody, rfl⟩
      rw [beq_iff_eq] at hslash
      exact ⟨'\\' :: next :: body, rest, by simp [hslash], .escaped hbody, rfl⟩
  | case4 c hmark hslash =>
      rw [bodyLength?, if_neg hmark, if_pos hslash] at h
      cases h
  | case5 c rest hmark hslash ih =>
      rw [bodyLength?.eq_def] at h
      dsimp only at h
      rw [if_neg hmark, if_neg hslash] at h
      rcases Option.map_eq_some_iff.mp h with ⟨m, hm, rfl⟩
      rcases ih hm with ⟨body, others, rfl, hbody, rfl⟩
      exact ⟨c :: body, others, rfl, .plain (by simpa using hmark) (by simpa using hslash) hbody,
        rfl⟩

theorem bodyLength?_of_quotedBody {mark : Char} {body : List Char} (h : QuotedBody mark body)
    (hmark : mark ≠ '\\') (rest : List Char) :
    bodyLength? mark (body ++ mark :: rest) = some body.length := by
  induction h with
  | nil =>
      rw [List.nil_append, bodyLength?.eq_def]
      simp
  | escaped _ ih => simp [bodyLength?, ih, Ne.symm hmark]
  | plain hc hslash _ ih =>
      rw [List.cons_append, bodyLength?.eq_def]
      simp [ih, hc, hslash]

theorem spellsKind_string {cs : List Char} (h : stringLength cs ≠ 0) :
    SpellsKind .string (cs.take (stringLength cs)) := by
  unfold stringLength at h ⊢
  split at h
  · rename_i mark rest
    split at h
    · rename_i hquote
      split at h
      · rename_i n hbody
        rcases exists_of_bodyLength? hbody with ⟨body, others, rfl, hbody', rfl⟩
        refine ⟨mark, body, hquote, hbody', ?_⟩
        simp [hquote, List.take_append, List.take_of_length_le]
      · exact absurd rfl h
    · exact absurd rfl h
  · exact absurd rfl h

theorem isName_take_nameLength {cs : List Char} (h : nameLength cs ≠ 0) :
    isName (cs.take (nameLength cs)) = true := by
  unfold nameLength at h ⊢
  split at h
  · rename_i c rest
    split at h
    · rename_i hstart
      rw [if_pos hstart, Nat.add_comm, List.take_succ_cons, take_length_takeWhile]
      simp [isName, hstart]
    · exact absurd rfl h
  · exact absurd rfl h

theorem spellsKind_operator {cs : List Char} (h : operatorLength cs ≠ 0) :
    SpellsKind .operator (cs.take (operatorLength cs)) := by
  unfold operatorLength at h ⊢
  cases hfind : longOperators.find? (·.isPrefixOf cs) with
  | some op =>
      have hprefix := List.find?_some hfind
      rw [List.isPrefixOf_iff_prefix] at hprefix
      dsimp only
      rw [← List.prefix_iff_eq_take.mp hprefix]
      exact .inl (List.mem_of_find?_eq_some hfind)
  | none =>
      rw [hfind] at h
      cases cs with
      | nil => exact absurd rfl h
      | cons c rest =>
          dsimp only at h ⊢
          split
          · rename_i hshort
            exact .inr ⟨c, by simpa using hshort, rfl⟩
          · rename_i hshort
            rw [if_neg hshort] at h
            exact absurd rfl h

theorem spellsKind_of_lexeme? {cs : List Char} {kind : TokenKind} {n : Nat}
    (h : lexeme? cs = some (some kind, n)) :
    SpellsKind kind (cs.take n) ∧ n ≠ 0 := by
  unfold lexeme? at h
  dsimp only at h
  split at h
  · cases h
  · split at h
    · rename_i hlength
      cases h
      exact ⟨spellsKind_number cs, by simpa using hlength⟩
    · split at h
      · rename_i hlength
        cases h
        exact ⟨spellsKind_string (by simpa using hlength), by simpa using hlength⟩
      · split at h
        · rename_i hlength
          cases h
          exact ⟨isName_take_nameLength (by simpa using hlength), by simpa using hlength⟩
        · split at h
          · rename_i hlength
            cases h
            exact ⟨spellsKind_operator (by simpa using hlength), by simpa using hlength⟩
          · cases h

theorem blank_of_lexeme? {cs : List Char} {n : Nat} (h : lexeme? cs = some (none, n)) :
    (∀ c ∈ cs.take n, Text.isBlank c = true) ∧ n ≠ 0 := by
  unfold lexeme? at h
  dsimp only at h
  split at h
  · rename_i hlength
    cases h
    constructor
    · intro c hc
      rw [take_length_takeWhile] at hc
      exact List.mem_takeWhile_imp hc
    · simpa using hlength
  · repeat' split at h
    all_goals cases h

theorem spells_of_tokensFrom {cs : List Char} {position skip : Nat} {tokens : List Token}
    (h : tokensFrom position skip cs = .ok tokens) :
    Spells tokens.dropLast (cs.drop skip) := by
  induction cs generalizing position skip tokens with
  | nil =>
      simp only [tokensFrom] at h
      cases h
      rw [List.drop_nil]
      exact .nil
  | cons c rest ih =>
      cases skip with
      | succ skip =>
          rw [tokensFrom] at h
          exact ih h
      | zero =>
          rw [tokensFrom] at h
          split at h
          · cases h
          · rename_i n hlexeme
            rcases blank_of_lexeme? hlexeme with ⟨hblank, hpos⟩
            have hrest := (ih h).blanks hblank
            rwa [← List.drop_succ_cons (a := c), Nat.sub_add_cancel (Nat.pos_of_ne_zero hpos),
              List.take_append_drop] at hrest
          · rename_i kind n hlexeme
            split at h
            · cases h
            · rename_i others hothers
              cases h
              rcases spellsKind_of_lexeme? hlexeme with ⟨hkind, hpos⟩
              rcases stopsAtEnd_tokensFrom hothers with ⟨body, stop, rfl, _⟩
              have hrest := ih hothers
              rw [List.dropLast_concat, ← List.drop_succ_cons (a := c),
                Nat.sub_add_cancel (Nat.pos_of_ne_zero hpos)] at hrest
              rw [← List.cons_append, List.dropLast_concat, List.drop_zero]
              have htoken : SpellsKind (Token.mk kind (String.ofList ((c :: rest).take n))
                  position).kind ((c :: rest).take n) :=
                hkind
              have hwhole := Spells.token htoken rfl hrest
              rwa [List.take_append_drop] at hwhole

theorem spells_of_tokenize {source : String} {tokens : List Token}
    (h : tokenize source = .ok tokens) :
    Spells tokens.dropLast source.toList :=
  spells_of_tokensFrom h

end Grammar
end Stencil
