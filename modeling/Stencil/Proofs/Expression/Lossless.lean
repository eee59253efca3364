import Stencil.Proofs.Expression.TokenPattern
import Stencil.Proofs.Expression.Totality

/-!
# Nothing is lost between tokens

The tokens of a text are slices of it, one behind the other, with white space alone between and
around them. Each is the same token when it stands by itself. A text without tokens is refused at
the first place its scan comes to where nothing starts. The text in front of that place has tokens,
and no longer part of it has.
-/

namespace Stencil

/-! # Places in a text -/

namespace Token

def finish (token : Token) : Nat :=
  token.position + token.text.length

def Holds (token : Token) (i : Nat) : Prop :=
  token.position ≤ i ∧ i < token.finish

/-- Whether a position lies inside of a token, behind its first character. -/
def Crosses (token : Token) (i : Nat) : Prop :=
  token.position < i ∧ i < token.finish

end Token

def StartsLexeme (cs : List Char) : Prop :=
  ∃ part ∈ Regex.tokenPattern, part.2.match? cs ≠ none

theorem startsLexeme_iff {cs : List Char} : StartsLexeme cs ↔ lexeme? cs ≠ none := by
  have hfound := Regex.firstOf?_tokenPattern cs
  have hnone : lexeme? cs = none ↔ ∀ part ∈ Regex.tokenPattern, part.2.match? cs = none := by
    rw [← Option.map_eq_none_iff, ← hfound, Regex.firstOf?, List.findSome?_eq_none_iff]
    simp only [Option.map_eq_none_iff]
  rw [Ne, hnone, StartsLexeme]
  simp

theorem lexeme?_of_blank {c : Char} (hc : Text.isBlank c = true) (rest : List Char) :
    lexeme? (c :: rest) ≠ none := by
  simp [lexeme?, hc]

/-! # Steps of the scanner -/

section Steps

variable {cs : List Char} {n : Nat}

theorem tokensFrom_blanks (h : lexeme? cs = some (none, n)) (position : Nat) :
    tokensFrom position 0 cs = tokensFrom (position + n) 0 (cs.drop n) := by
  cases cs with
  | nil => cases h
  | cons c rest =>
      have hbehind := Cursor.tokensFrom_behind (Cursor.lexeme?_pos h) position c rest
      rw [List.length_take_of_le (lexeme?_le_length h)] at hbehind
      rw [tokensFrom, h]
      exact hbehind

theorem tokensFrom_token {kind : TokenKind} (h : lexeme? cs = some (some kind, n))
    (position : Nat) :
    tokensFrom position 0 cs = (tokensFrom (position + n) 0 (cs.drop n)).map fun tokens =>
      ⟨kind, String.ofList (cs.take n), position⟩ :: tokens := by
  cases cs with
  | nil => cases h
  | cons c rest =>
      have hbehind := Cursor.tokensFrom_behind (Cursor.lexeme?_pos h) position c rest
      rw [List.length_take_of_le (lexeme?_le_length h)] at hbehind
      rw [tokensFrom, h]
      dsimp only
      rw [hbehind]
      cases tokensFrom (position + n) 0 ((c :: rest).drop n) <;> rfl

theorem tokensFrom_stray {c : Char} {rest : List Char} (h : lexeme? (c :: rest) = none)
    (position : Nat) :
    tokensFrom position 0 (c :: rest) = .error (.strayCharacter c position) := by
  rw [tokensFrom, h]

end Steps

/-! # Scans -/

inductive Scans (text : List Char) : Nat → List Token → Nat → Prop where
  | here {pos : Nat} : Scans text pos [] pos
  | blanks {pos n last : Nat} {tokens : List Token} :
      lexeme? (text.drop pos) = some (none, n) → Scans text (pos + n) tokens last →
      Scans text pos tokens last
  | token {pos n last : Nat} {kind : TokenKind} {tokens : List Token} :
      lexeme? (text.drop pos) = some (some kind, n) → Scans text (pos + n) tokens last →
      Scans text pos (⟨kind, String.ofList ((text.drop pos).take n), pos⟩ :: tokens) last

section Scans

variable {text : List Char} {pos n last : Nat} {tokens : List Token}

theorem exists_scans (hpos : pos ≤ text.length) :
    ∃ tokens last, Scans text pos tokens last ∧
      (last = text.length ∨ last < text.length ∧ lexeme? (text.drop last) = none) := by
  induction hleft : text.length - pos using Nat.strongRecOn generalizing pos with
  | ind left ih =>
      cases hlexeme : lexeme? (text.drop pos) with
      | none => exact ⟨[], pos, .here, (Nat.eq_or_lt_of_le hpos).imp_right (⟨·, hlexeme⟩)⟩
      | some found =>
          rcases found with ⟨kind, n⟩
          have hn := Cursor.lexeme?_pos hlexeme
          have hle := lexeme?_le_length hlexeme
          rw [List.length_drop] at hle
          rcases ih (text.length - (pos + n)) (by omega) (by omega) rfl with
            ⟨tokens, last, hscans, hlast⟩
          cases kind with
          | none => exact ⟨tokens, last, .blanks hlexeme hscans, hlast⟩
          | some kind => exact ⟨_, last, .token hlexeme hscans, hlast⟩

theorem Scans.tokensFrom_eq (h : Scans text pos tokens last) :
    tokensFrom pos 0 (text.drop pos) =
      (tokensFrom last 0 (text.drop last)).map (tokens ++ ·) := by
  induction h with
  | here => cases tokensFrom _ 0 (text.drop _) <;> rfl
  | blanks hlexeme _ ih => rw [tokensFrom_blanks hlexeme, List.drop_drop, ih]
  | token hlexeme _ ih =>
      rw [tokensFrom_token hlexeme, List.drop_drop, ih]
      cases tokensFrom _ 0 (text.drop _) <;> rfl

theorem Scans.le (h : Scans text pos tokens last) : pos ≤ last := by
  induction h with
  | here => exact Nat.le_refl _
  | blanks _ _ ih => omega
  | token _ _ ih => omega

theorem Scans.take {m : Nat} (h : Scans text pos tokens last) (hm : last ≤ m) :
    Scans (text.take m) pos tokens last := by
  induction h with
  | here => exact .here
  | @blanks pos n last tokens hlexeme hrest ih =>
      have hle := hrest.le
      have hcut := lexeme?_take hlexeme (m := m - pos) (by omega)
      rw [← List.drop_take] at hcut
      exact .blanks hcut (ih hm)
  | @token pos n last kind tokens hlexeme hrest ih =>
      have hle := hrest.le
      have hcut := lexeme?_take hlexeme (m := m - pos) (by omega)
      rw [← List.drop_take] at hcut
      have hscans := Scans.token hcut (ih hm)
      have hword : ((text.take m).drop pos).take n = (text.drop pos).take n := by
        rw [List.drop_take, List.take_take, Nat.min_eq_left (by omega)]
      rwa [hword] at hscans

/-! # What a scan takes -/

/-- Whether a token is a part of a text, and the same token when it stands by itself. -/
structure Token.IsPart (text : List Char) (token : Token) : Prop where
  kind_ne_stop : token.kind ≠ .stop
  position_lt : token.position < token.finish
  slice : token.text.toList = (text.drop token.position).take token.text.length
  alone : tokenize token.text =
    .ok [⟨token.kind, token.text, 0⟩, ⟨.stop, "", token.text.length⟩]

theorem finish_eq {kind : TokenKind} (h : lexeme? (text.drop pos) = some (some kind, n)) :
    (Token.mk kind (String.ofList ((text.drop pos).take n)) pos).finish = pos + n := by
  rw [Token.finish, String.length_ofList, List.length_take_of_le (lexeme?_le_length h)]

theorem isPart_of_lexeme? {kind : TokenKind} (h : lexeme? (text.drop pos) = some (some kind, n)) :
    (Token.mk kind (String.ofList ((text.drop pos).take n)) pos).IsPart text := by
  have hlength : ((text.drop pos).take n).length = n :=
    List.length_take_of_le (lexeme?_le_length h)
  refine ⟨Grammar.kind_ne_stop_of_lexeme? h, ?_, ?_, ?_⟩
  · have hn := Cursor.lexeme?_pos h
    rw [finish_eq h]
    dsimp only
    omega
  · dsimp only
    rw [String.length_ofList, hlength, String.toList_ofList]
  · have halone := tokensFrom_token (lexeme?_take h (Nat.le_refl n)) 0
    rw [List.take_take, Nat.min_self, List.drop_eq_nil_of_le (Nat.le_of_eq hlength)] at halone
    dsimp only
    rw [tokenize, String.toList_ofList, halone, String.length_ofList, hlength, Nat.zero_add]
    rfl

theorem Scans.mem {token : Token} (h : Scans text pos tokens last) (htoken : token ∈ tokens) :
    pos ≤ token.position ∧ token.finish ≤ last ∧ token.IsPart text := by
  induction h with
  | here => cases htoken
  | blanks _ _ ih =>
      rcases ih htoken with ⟨hpos, hrest⟩
      exact ⟨by omega, hrest⟩
  | token hlexeme hrest ih =>
      cases htoken with
      | head =>
          refine ⟨Nat.le_refl _, ?_, isPart_of_lexeme? hlexeme⟩
          rw [finish_eq hlexeme]
          exact hrest.le
      | tail _ htoken =>
          rcases ih htoken with ⟨hpos, hrest⟩
          exact ⟨by omega, hrest⟩

theorem Scans.apart (h : Scans text pos tokens last) :
    tokens.Pairwise fun s t => s.finish ≤ t.position := by
  induction h with
  | here => exact .nil
  | blanks _ _ ih => exact ih
  | token hlexeme hrest ih =>
      refine .cons ?_ ih
      intro token htoken
      rw [finish_eq hlexeme]
      exact (hrest.mem htoken).1

theorem isBlank_of_lexeme? {i : Nat} {c : Char} (h : lexeme? (text.drop pos) = some (none, n))
    (hpos : pos ≤ i) (hi : i < pos + n) (hc : text[i]? = some c) : Text.isBlank c = true := by
  refine (Grammar.blank_of_lexeme? h).1 c (List.mem_of_getElem? (i := i - pos) ?_)
  rw [List.getElem?_take_of_lt (by omega), List.getElem?_drop, Nat.add_sub_cancel' hpos, hc]

theorem Scans.isBlank {i : Nat} {c : Char} (h : Scans text pos tokens last) (hpos : pos ≤ i)
    (hlast : i < last) (hc : text[i]? = some c) (hfree : ∀ token ∈ tokens, ¬ token.Holds i) :
    Text.isBlank c = true := by
  induction h with
  | here => omega
  | @blanks pos n last tokens hlexeme _ ih =>
      by_cases hbehind : pos + n ≤ i
      · exact ih hbehind hlast hfree
      · exact isBlank_of_lexeme? hlexeme hpos (Nat.lt_of_not_le hbehind) hc
  | @token pos n last kind tokens hlexeme _ ih =>
      by_cases hbehind : pos + n ≤ i
      · exact ih hbehind hlast fun token htoken => hfree token (List.mem_cons_of_mem _ htoken)
      · refine absurd ⟨hpos, ?_⟩ (hfree _ List.mem_cons_self)
        rw [finish_eq hlexeme]
        omega

theorem Scans.startsLexeme {i : Nat} (h : Scans text pos tokens last) (hpos : pos ≤ i)
    (hlast : i < last) (hfree : ∀ token ∈ tokens, ¬ token.Crosses i) :
    StartsLexeme (text.drop i) := by
  induction h with
  | here => omega
  | @blanks pos n last tokens hlexeme _ ih =>
      by_cases hbehind : pos + n ≤ i
      · exact ih hbehind hlast hfree
      · have hinside : i < text.length := by
          have hle := lexeme?_le_length hlexeme
          rw [List.length_drop] at hle
          omega
        rw [startsLexeme_iff, List.drop_eq_getElem_cons hinside]
        exact lexeme?_of_blank (isBlank_of_lexeme? hlexeme hpos (Nat.lt_of_not_le hbehind)
          (List.getElem?_eq_getElem hinside)) _
  | @token pos n last kind tokens hlexeme _ ih =>
      by_cases hbehind : pos + n ≤ i
      · exact ih hbehind hlast fun token htoken => hfree token (List.mem_cons_of_mem _ htoken)
      · rcases Nat.eq_or_lt_of_le hpos with rfl | hinside
        · rw [startsLexeme_iff, hlexeme]
          exact Option.some_ne_none _
        · refine absurd ⟨hinside, ?_⟩ (hfree _ List.mem_cons_self)
          rw [finish_eq hlexeme]
          omega

end Scans

/-! # Texts with tokens -/

/-- What the tokens of a text are, the stop token included. -/
structure IsLossless (text : List Char) (tokens : List Token) : Prop where
  increasing : tokens.Pairwise fun s t => s.position < t.position
  slice : ∀ token ∈ tokens,
    token.text.toList = (text.drop token.position).take token.text.length
  apart : tokens.Pairwise fun s t => s.finish ≤ t.position
  blank : ∀ i c, text[i]? = some c → (∀ token ∈ tokens, ¬ token.Holds i) → Text.isBlank c = true
  ends : ∃ body, tokens = body ++ [⟨.stop, "", text.length⟩] ∧
    ∀ token ∈ body, token.kind ≠ .stop ∧
      tokenize token.text = .ok [⟨token.kind, token.text, 0⟩, ⟨.stop, "", token.text.length⟩]

theorem Scans.isLossless {text : List Char} {body : List Token}
    (h : Scans text 0 body text.length) :
    IsLossless text (body ++ [⟨.stop, "", text.length⟩]) where
  increasing := by
    rw [List.pairwise_append]
    refine ⟨h.apart.imp_of_mem fun hs _ hapart => ?_, List.pairwise_singleton _ _, ?_⟩
    · have hpart := (h.mem hs).2.2.position_lt
      omega
    · intro token htoken stop hstop
      rw [List.mem_singleton] at hstop
      subst hstop
      rcases h.mem htoken with ⟨-, hfinish, hpart⟩
      exact Nat.lt_of_lt_of_le hpart.position_lt hfinish
  slice token htoken := by
    rcases List.mem_append.mp htoken with hbody | hstop
    · exact (h.mem hbody).2.2.slice
    · rw [List.mem_singleton] at hstop
      subst hstop
      rfl
  apart := by
    rw [List.pairwise_append]
    refine ⟨h.apart, List.pairwise_singleton _ _, ?_⟩
    intro token htoken stop hstop
    rw [List.mem_singleton] at hstop
    subst hstop
    exact (h.mem htoken).2.1
  blank i c hc hfree := by
    rcases List.getElem?_eq_some_iff.mp hc with ⟨hinside, -⟩
    exact h.isBlank (Nat.zero_le i) hinside hc fun token htoken =>
      hfree token (List.mem_append_left _ htoken)
  ends := ⟨body, rfl, fun token htoken =>
    ⟨(h.mem htoken).2.2.kind_ne_stop, (h.mem htoken).2.2.alone⟩⟩

/-! # Texts without tokens -/

/--
Where a text without tokens is refused: the text in front has tokens, no longer part of it has, and
something starts at every earlier place that no token in front goes across.
-/
structure IsStray (text : List Char) (c : Char) (position : Nat) : Prop where
  char : text[position]? = some c
  nothing : ¬ StartsLexeme (text.drop position)
  front : ∃ tokens, tokenize (String.ofList (text.take position)) = .ok tokens ∧
    ∀ i < position, (∀ token ∈ tokens, ¬ token.Crosses i) → StartsLexeme (text.drop i)
  longest : ∀ m, position < m →
    tokenize (String.ofList (text.take m)) = .error (.strayCharacter c position)

theorem Scans.tokenize_eq {text : List Char} {tokens : List Token}
    (h : Scans text 0 tokens text.length) :
    tokenize (String.ofList text) = .ok (tokens ++ [⟨.stop, "", text.length⟩]) := by
  have hread := h.tokensFrom_eq
  rw [List.drop_zero, List.drop_length] at hread
  rw [tokenize, String.toList_ofList, hread]
  rfl

theorem Scans.tokenize_stray {text : List Char} {tokens : List Token} {c : Char} {position : Nat}
    (h : Scans text 0 tokens position) (hc : text[position]? = some c)
    (hnone : lexeme? (text.drop position) = none) :
    tokenize (String.ofList text) = .error (.strayCharacter c position) := by
  have hread := h.tokensFrom_eq
  rcases List.getElem?_eq_some_iff.mp hc with ⟨hinside, rfl⟩
  rw [List.drop_eq_getElem_cons hinside] at hnone hread
  rw [List.drop_zero, tokensFrom_stray hnone] at hread
  rw [tokenize, String.toList_ofList, hread]
  rfl

theorem Scans.isStray {text : List Char} {tokens : List Token} {c : Char} {position : Nat}
    (h : Scans text 0 tokens position) (hc : text[position]? = some c)
    (hnone : lexeme? (text.drop position) = none) : IsStray text c position where
  char := hc
  nothing := by
    rw [startsLexeme_iff, Classical.not_not]
    exact hnone
  front := by
    rcases List.getElem?_eq_some_iff.mp hc with ⟨hinside, -⟩
    have hlength : (text.take position).length = position :=
      List.length_take_of_le (Nat.le_of_lt hinside)
    have hfront : Scans (text.take position) 0 tokens (text.take position).length := by
      rw [hlength]
      exact h.take (Nat.le_refl position)
    refine ⟨_, hfront.tokenize_eq, fun i hi hfree => ?_⟩
    exact h.startsLexeme (Nat.zero_le i) hi fun token htoken =>
      hfree token (List.mem_append_left _ htoken)
  longest m hm := by
    refine (h.take (Nat.le_of_lt hm)).tokenize_stray ?_ ?_
    · rw [List.getElem?_take_of_lt hm, hc]
    · rw [List.drop_take]
      exact lexeme?_take_eq_none hnone _

/--
A text either falls into tokens without loss, or is refused at the first place of its scan where
nothing starts.
-/
theorem tokenize_lossless (source : String) :
    (∀ tokens, tokenize source = .ok tokens → IsLossless source.toList tokens) ∧
      ∀ e, tokenize source = .error e →
        ∃ c position, e = .strayCharacter c position ∧ IsStray source.toList c position := by
  rcases exists_scans (Nat.zero_le source.toList.length) with
    ⟨tokens, last, hscans, rfl | ⟨hlast, hnone⟩⟩
  · have hread := hscans.tokenize_eq
    rw [String.ofList_toList] at hread
    rw [hread]
    refine ⟨fun found hfound => ?_, fun e he => nomatch he⟩
    cases hfound
    exact hscans.isLossless
  · have hc := List.getElem?_eq_getElem hlast
    have hread := hscans.tokenize_stray hc hnone
    rw [String.ofList_toList] at hread
    rw [hread]
    refine ⟨fun found hfound => (nomatch hfound), fun e he => ?_⟩
    cases he
    exact ⟨_, last, rfl, hscans.isStray hc hnone⟩

/-- Nothing starts behind two of the three signs either, but the scan never stands there. -/
example : tokenize "===#" = .error (.strayCharacter '#' 3) := by
  rfl

end Stencil
