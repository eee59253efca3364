import Stencil.Proofs.Expression.Cursor

/-!
# Every source is read

A source is scanned by positions, match after match, and its row of tokens is then read by index.
Neither takes more steps than it is given, nor looks where there is nothing. So every source is an
expression, or malformed in a way that the reader names.
-/

namespace Stencil
namespace Cursor

open Stencil.Expr Grammar

/-! # Scanning by positions -/

def tokensAt (text : List Char) : Nat → Nat → Except Failure (List Token)
  | 0, _ => .error .endless
  | fuel + 1, pos =>
      if pos < text.length then
        match lexeme? (text.drop pos) with
        | none =>
            match text[pos]? with
            | some c => .error (.malformed (.strayCharacter c pos))
            | none => .error .outside
        | some (none, n) =>
            let word := (text.drop pos).take n
            tokensAt text fuel (pos + word.length)
        | some (some kind, n) =>
            let word := (text.drop pos).take n
            (tokensAt text fuel (pos + word.length)).map fun tokens =>
              ⟨kind, String.ofList word, pos⟩ :: tokens
      else .ok [⟨.stop, "", pos⟩]

def tokenizeAt (source : String) : Except Failure (List Token) :=
  tokensAt source.toList (source.toList.length + 1) 0

theorem lexeme?_pos {cs : List Char} {kind : Option TokenKind} {n : Nat}
    (h : lexeme? cs = some (kind, n)) : 0 < n := by
  have hpos : ∀ {k m : Nat}, (k != 0) = true → k = m → 0 < m := by
    intro k m hk heq
    subst heq
    exact Nat.pos_of_ne_zero (by simpa using hk)
  unfold lexeme? at h
  dsimp only at h
  repeat' split at h
  all_goals simp only [Option.some.injEq, Prod.mk.injEq, reduceCtorEq] at h
  all_goals exact hpos ‹_› h.2

theorem drop_length_take {α : Type} (n : Nat) (cs : List α) :
    cs.drop (cs.take n).length = cs.drop n := by
  rw [List.length_take]
  rcases Nat.le_total n cs.length with h | h
  · rw [Nat.min_eq_left h]
  · rw [Nat.min_eq_right h, List.drop_length, List.drop_eq_nil_of_le h]

theorem tokensFrom_behind {n : Nat} (hn : 0 < n) (position : Nat) (c : Char) (rest : List Char) :
    tokensFrom (position + 1) (n - 1) rest =
      tokensFrom (position + ((c :: rest).take n).length) 0 ((c :: rest).drop n) := by
  rcases Nat.exists_eq_add_one_of_ne_zero (Nat.ne_of_gt hn) with ⟨m, rfl⟩
  rw [Nat.add_sub_cancel, tokensFrom_eq_drop, List.take_succ_cons, List.drop_succ_cons,
    List.length_cons]
  congr 1
  omega

theorem exists_of_tokensFrom_eq_error {position skip : Nat} {cs : List Char} {e : SyntaxError}
    (h : tokensFrom position skip cs = .error e) :
    ∃ c offset, e = .strayCharacter c offset := by
  induction cs generalizing position skip with
  | nil =>
      rw [tokensFrom] at h
      cases h
  | cons c rest ih =>
      cases skip with
      | succ skip =>
          rw [tokensFrom] at h
          exact ih h
      | zero =>
          rw [tokensFrom] at h
          split at h
          · cases h
            exact ⟨c, position, rfl⟩
          · exact ih h
          · split at h
            · rename_i hothers
              cases h
              exact ih hothers
            · cases h

theorem tokensAt_eq {text : List Char} {fuel pos : Nat} (hfuel : text.length - pos < fuel)
    (hpos : pos ≤ text.length) :
    tokensAt text fuel pos = (tokensFrom pos 0 (text.drop pos)).mapError .malformed := by
  induction fuel generalizing pos with
  | zero => cases hfuel
  | succ fuel ih =>
      rw [tokensAt]
      by_cases hinside : pos < text.length
      · have hdrop := List.drop_eq_getElem_cons hinside
        rw [if_pos hinside, hdrop, tokensFrom]
        cases hlexeme : lexeme? (text[pos] :: text.drop (pos + 1)) with
        | none =>
            rw [List.getElem?_eq_getElem hinside]
            rfl
        | some found =>
            rcases found with ⟨kind, n⟩
            have hn := lexeme?_pos hlexeme
            have hbehind := tokensFrom_behind hn pos text[pos] (text.drop (pos + 1))
            rw [← hdrop] at hbehind ⊢
            have hword : 0 < ((text.drop pos).take n).length := by
              rw [List.length_take, List.length_drop]
              omega
            have hend : pos + ((text.drop pos).take n).length ≤ text.length := by
              rw [List.length_take, List.length_drop]
              omega
            have hrest := ih (by omega) hend
            rw [← List.drop_drop, drop_length_take, ← hbehind] at hrest
            cases kind with
            | none => exact hrest
            | some kind =>
                dsimp only
                rw [hrest]
                cases tokensFrom (pos + 1) (n - 1) (text.drop (pos + 1)) <;> rfl
      · rw [if_neg hinside, List.drop_eq_nil_of_le (Nat.le_of_not_lt hinside)]
        rfl

theorem tokenizeAt_eq (source : String) :
    tokenizeAt source = (tokenize source).mapError .malformed := by
  rw [tokenizeAt, tokensAt_eq (by omega) (Nat.zero_le _), List.drop_zero, tokenize]

/-! # Reading whole rows -/

variable {tokens : List Token}

theorem wholeAt_cases (hrow : StopsAtEnd tokens) :
    (∃ tree track, (wholeAt tokens).run .start = .ok tree track ∧ ofTokens tokens = .ok tree ∧
        track.IsInside tokens ∧ track.index + 1 = tokens.length) ∨
      ∃ e track, (wholeAt tokens).run .start = .error (.malformed e) track ∧
        ofTokens tokens = .error e ∧ track.IsSpent tokens := by
  have hfinished := finished_ofTokens hrow.endsWithStop
  have hstart : Track.start.IsInside tokens :=
    ⟨hrow.endsWithStop.length_pos, by simp [Track.start]⟩
  cases tokens with
  | nil => exact absurd hstart.1 (Nat.not_lt_zero _)
  | cons first others =>
      rw [wholeAt, run_bind (look_run rfl)]
      unfold ofTokens at hfinished ⊢
      dsimp only at hfinished ⊢
      by_cases hstop : (first.kind == .stop) = true
      · rw [if_pos hstop, if_pos hstop]
        exact .inr ⟨_, _, rfl, rfl, hstart.looked.isSpent⟩
      · rw [if_neg hstop] at hfinished ⊢
        rw [if_neg hstop]
        rcases ((followsWithin hrow _).conditional hstart.looked).cases with
          ⟨tree, track, hrun, hread, hinside⟩ | ⟨e, track, hrun, hread, hspent⟩ | hread
        · rcases hinside.exists_drop with ⟨found, hfound, hdrop⟩
          change readConditional _ (first :: others) = _ at hread
          rw [run_bind hrun, run_bind (look_run hfound), hread, bind_ok, hdrop]
          dsimp only
          by_cases hend : found.kind = .stop
          · rw [if_neg (by simp [hend]), if_pos (by simp [hend])]
            exact .inl ⟨tree, track.looked, rfl, rfl, hinside.looked,
              (kind_eq_stop_iff hrow hfound).mp hend⟩
          · rw [if_pos (by simp [hend]), if_neg (by simp [hend])]
            have hagain : (look (first :: others)).run track.looked =
                .ok found track.looked.looked := look_run hfound
            rw [run_bind hagain]
            exact .inr ⟨_, _, rfl, rfl, hinside.looked.looked.isSpent⟩
        · change readConditional _ (first :: others) = _ at hread
          rw [run_bind_error hrun, hread]
          exact .inr ⟨e, track, rfl, rfl, hspent⟩
        · change readConditional _ (first :: others) = _ at hread
          rw [hread] at hfinished
          exact absurd rfl hfinished

/-- Without a property name behind the point, the stop token is gone on over before it is known. -/
example :
    (wholeAt [⟨.name, "a", 0⟩, ⟨.operator, ".", 1⟩, ⟨.stop, "", 2⟩]).run .start =
      .error (.malformed (.noPropertyName 2)) ⟨3, [2, 1, 0, 0, 0]⟩ := by
  rfl

/-! # Whole sources -/

/--
Every source is an expression, or malformed in a way that the reader names. Reading it by positions
and by index comes to the same end: no loop takes more steps than it is given, and nothing is looked
at outside of the source or behind the stop token of its row, whose index is `last`. The index
stands behind the stop token only after a step that failed: a step looks at the index it starts
from, and a reading that gives a tree ends at the stop token.
-/
theorem compile_total (source : String) :
    (∃ e, tokenizeAt (Text.strip source) = .error (.malformed e) ∧ compile source = .error e ∧
        e ≠ .unfinished) ∨
      ∃ tokens last, tokenizeAt (Text.strip source) = .ok tokens ∧ StopsAtEnd tokens ∧
        tokens.length = last + 1 ∧
        ((∃ tree track, (wholeAt tokens).run .start = .ok tree track ∧
            compile source = .ok tree ∧ track.index = last ∧ ∀ i ∈ track.looks, i ≤ last) ∨
          ∃ e track, (wholeAt tokens).run .start = .error (.malformed e) track ∧
            compile source = .error e ∧ e ≠ .unfinished ∧
            (track.index ≤ last ∨ track.index = last + 1 ∧ track.looks.head? = some last) ∧
            ∀ i ∈ track.looks, i ≤ last) := by
  rw [tokenizeAt_eq]
  cases htokens : tokenize (Text.strip source) with
  | error e =>
      rcases exists_of_tokensFrom_eq_error htokens with ⟨c, offset, rfl⟩
      refine .inl ⟨_, rfl, ?_, by simp⟩
      rw [compile, htokens]
      rfl
  | ok tokens =>
      have hrow := stopsAtEnd_tokenize htokens
      have hlast : tokens.length = tokens.length - 1 + 1 :=
        (Nat.sub_add_cancel hrow.endsWithStop.length_pos).symm
      refine .inr ⟨tokens, tokens.length - 1, rfl, hrow, hlast, ?_⟩
      rw [compile_eq_ofTokens htokens]
      rcases wholeAt_cases hrow with
        ⟨tree, track, hrun, hread, hinside, hindex⟩ | ⟨e, track, hrun, hread, hspent⟩
      · exact .inl ⟨tree, track, hrun, hread, by omega, hinside.looks_le hlast⟩
      · have hfinished := finished_ofTokens hrow.endsWithStop
        rw [hread] at hfinished
        refine .inr ⟨e, track, hrun, hread, ?_, hspent.last hlast⟩
        rintro rfl
        exact hfinished rfl

end Cursor
end Stencil
