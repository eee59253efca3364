import Stencil.Proofs.Expression.Budget

/-!
# Rows of tokens

The tokens of a text end with the stop token, which stands nowhere else. So a row reads
as a tree if and only if the grammar derives the tree from all tokens before its last.
-/

namespace Stencil
namespace Grammar

open Stencil.Expr

/-! # What a scan skips -/

theorem tokensFrom_eq_drop (position skip : Nat) (cs : List Char) :
    tokensFrom position skip cs =
      tokensFrom (position + (cs.take skip).length) 0 (cs.drop skip) := by
  induction cs generalizing position skip with
  | nil => simp [tokensFrom]
  | cons c rest ih =>
      cases skip with
      | zero => rfl
      | succ skip =>
          rw [tokensFrom, ih, List.take_succ_cons, List.drop_succ_cons, List.length_cons]
          congr 1
          omega

/-! # The stop token -/

def StopsAtEnd (tokens : List Token) : Prop :=
  ∃ body stop, tokens = body ++ [stop] ∧ stop.kind = .stop ∧
    ∀ token ∈ body, token.kind ≠ .stop

theorem kind_ne_stop_of_lexeme? {cs : List Char} {kind : TokenKind} {n : Nat}
    (h : lexeme? cs = some (some kind, n)) : kind ≠ .stop := by
  unfold lexeme? at h
  intro hkind
  subst hkind
  dsimp only at h
  repeat' split at h
  all_goals simp at h

theorem StopsAtEnd.cons {token : Token} {tokens : List Token} (h : StopsAtEnd tokens)
    (htoken : token.kind ≠ .stop) :
    StopsAtEnd (token :: tokens) := by
  rcases h with ⟨body, stop, rfl, hstop, hbody⟩
  refine ⟨token :: body, stop, rfl, hstop, ?_⟩
  intro other hother
  cases hother with
  | head => exact htoken
  | tail _ hmem => exact hbody other hmem

theorem stopsAtEnd_tokensFrom {cs : List Char} {position skip : Nat} {tokens : List Token}
    (h : tokensFrom position skip cs = .ok tokens) :
    StopsAtEnd tokens := by
  induction cs generalizing position skip tokens with
  | nil =>
      simp only [tokensFrom] at h
      cases h
      exact ⟨[], ⟨.stop, "", position⟩, rfl, rfl, by simp⟩
  | cons c rest ih =>
      cases skip with
      | succ skip =>
          rw [tokensFrom] at h
          exact ih h
      | zero =>
          rw [tokensFrom] at h
          split at h
          · cases h
          · exact ih h
          · rename_i kind length hlexeme
            split at h
            · cases h
            · rename_i others hothers
              cases h
              exact (ih hothers).cons (kind_ne_stop_of_lexeme? hlexeme)

theorem stopsAtEnd_tokenize {source : String} {tokens : List Token}
    (h : tokenize source = .ok tokens) :
    StopsAtEnd tokens :=
  stopsAtEnd_tokensFrom h

theorem StopsAtEnd.endsWithStop {tokens : List Token} (h : StopsAtEnd tokens) :
    EndsWithStop tokens := by
  rcases h with ⟨body, stop, rfl, hstop, _⟩
  exact ⟨stop, List.getLast?_concat, hstop⟩

theorem eq_of_append_stop {taken more body : List Token} {next stop : Token}
    (h : taken ++ next :: more = body ++ [stop]) (hnext : next.kind = .stop)
    (hbody : ∀ token ∈ body, token.kind ≠ .stop) :
    taken = body := by
  rcases List.append_eq_append_iff.mp h with ⟨front, rfl, hrest⟩ | ⟨front, rfl, hrest⟩
  · cases front with
    | nil => simp
    | cons token others =>
        cases hrest
        exact absurd hnext (hbody next (by simp))
  · cases front with
    | nil => simp
    | cons token others =>
        simp only [List.cons_append, List.cons.injEq, List.nil_eq, List.append_eq_nil_iff] at hrest
        rcases hrest with ⟨_, _, hnil⟩
        cases hnil

/-! # Whole rows -/

theorem exists_of_ofTokens {tokens : List Token} {tree : Expr} (h : ofTokens tokens = .ok tree) :
    ∃ taken next more, tokens = taken ++ next :: more ∧ next.kind = .stop ∧
      Derives (.expr .conditional tree) taken := by
  unfold ofTokens at h
  split at h
  · cases h
  · split at h
    · cases h
    · rw [bind_eq_ok_iff] at h
      rcases h with ⟨⟨found, rest⟩, hread, h⟩
      rcases (soundWithin _).conditional hread with ⟨taken, htokens, hderives⟩
      dsimp only at h
      split at h
      · cases h
      · rename_i next more
        split at h
        · rename_i hstop
          cases h
          exact ⟨taken, next, more, htokens, by simpa using hstop, hderives⟩
        · cases h

theorem ofTokens_of_derives {body : List Token} {stop : Token} {tree : Expr}
    (h : Derives (.expr .conditional tree) body) (hstop : stop.kind = .stop) :
    ofTokens (body ++ [stop]) = .ok tree := by
  rcases h.begins.exprHead with ⟨first, rest, rfl, _⟩
  have hfirst : first.kind ≠ .stop := h.ne_stop first (by simp)
  have hread := h.readsBack (budgetFor ((first :: rest) ++ [stop])) [stop]
    (by simp only [budgetFor, List.length_append, List.length_cons, List.length_nil]; omega)
    (.of_kind (by simp [hstop]) [])
  simp only [List.cons_append] at hread
  simp only [ofTokens, List.cons_append, beq_iff_eq, hfirst, if_false]
  rw [hread, bind_ok]
  simp [hstop]

theorem ofTokens_eq_ok_iff {body : List Token} {stop : Token} {tree : Expr}
    (hstop : stop.kind = .stop) (hbody : ∀ token ∈ body, token.kind ≠ .stop) :
    ofTokens (body ++ [stop]) = .ok tree ↔ Derives (.expr .conditional tree) body := by
  constructor
  · intro h
    rcases exists_of_ofTokens h with ⟨taken, next, more, heq, hnext, hderives⟩
    rw [← eq_of_append_stop heq.symm hnext hbody]
    exact hderives
  · intro h
    exact ofTokens_of_derives h hstop

theorem compile_eq_ofTokens {source : String} {tokens : List Token}
    (h : tokenize (Text.strip source) = .ok tokens) :
    compile source = ofTokens tokens := by
  rw [compile, h, bind_ok]

theorem compile_eq_ok_iff {source : String} {tokens : List Token}
    (h : tokenize (Text.strip source) = .ok tokens) (tree : Expr) :
    compile source = .ok tree ↔ Derives (.expr .conditional tree) tokens.dropLast := by
  rcases stopsAtEnd_tokenize h with ⟨body, stop, rfl, hstop, hbody⟩
  rw [compile_eq_ofTokens h, ofTokens_eq_ok_iff hstop hbody, List.dropLast_concat]

theorem finished_compile {source : String} {tokens : List Token}
    (h : tokenize (Text.strip source) = .ok tokens) : Finished (compile source) := by
  rw [compile_eq_ofTokens h]
  exact finished_ofTokens (stopsAtEnd_tokenize h).endsWithStop

end Grammar
end Stencil
