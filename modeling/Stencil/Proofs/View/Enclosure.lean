import Stencil.Proofs.Expression.Spelling
import Stencil.Proofs.Outcome

/-!
# Enclosed texts

A directive ends at a bracket or at a semicolon. Which one that is can be said without a scan: what
lies before the bracket is a text whose own brackets come in pairs, and in what lies before the
semicolon every other semicolon stands inside some brackets. String literals are passed over as a
whole in both. The scanners find just these places.
-/

namespace Stencil

open Grammar

/-! # Texts between brackets -/

def isFraming (c : Char) : Bool :=
  isQuote c || (closerOf? c).isSome || isCloser c

inductive Enclosed : List Char → Prop where
  | nil : Enclosed []
  | plain {c : Char} {rest : List Char} :
      isFraming c = false → Enclosed rest → Enclosed (c :: rest)
  | literal {mark : Char} {body rest : List Char} :
      isQuote mark = true → QuotedBody mark body → Enclosed rest →
      Enclosed (mark :: (body ++ mark :: rest))
  | wrapped {opener closer : Char} {inner rest : List Char} :
      closerOf? opener = some closer → Enclosed inner → Enclosed rest →
      Enclosed (opener :: (inner ++ closer :: rest))

/--
A text leads out of open brackets, of which `top` closes the innermost and `below` the ones around
it, up to the one that closes the outermost.
-/
inductive Closing : Char → List Char → List Char → Char → Prop where
  | outermost {top : Char} {w : List Char} : Enclosed w → Closing top [] w top
  | inner {top next last : Char} {others w v : List Char} :
      Enclosed w → Closing next others v last →
      Closing top (next :: others) (w ++ top :: v) last

theorem not_isFraming {c : Char} (hquote : ¬ isQuote c = true) (hopener : closerOf? c = none)
    (hcloser : ¬ isCloser c = true) : isFraming c = false := by
  rw [isFraming, Bool.eq_false_iff.mpr hquote, Bool.eq_false_iff.mpr hcloser, hopener]
  rfl

namespace Closing

variable {top last : Char} {below w : List Char}

theorem extend {front : List Char} (hfront : ∀ v, Enclosed v → Enclosed (front ++ v))
    (h : Closing top below w last) : Closing top below (front ++ w) last := by
  cases h with
  | outermost hw => exact .outermost (hfront w hw)
  | inner hw hv =>
      rw [← List.append_assoc]
      exact .inner (hfront _ hw) hv

theorem unwrap {opener closer : Char} (hpair : closerOf? opener = some closer)
    (h : Closing closer (top :: below) w last) : Closing top below (opener :: w) last := by
  cases h with
  | @inner _ _ _ _ inner outside hinner houtside =>
      have hfront : ∀ v, Enclosed v → Enclosed (opener :: (inner ++ [closer]) ++ v) := by
        intro v hv
        simpa using Enclosed.wrapped hpair hinner hv
      simpa using houtside.extend hfront

end Closing

theorem exists_skipped_literal {mark : Char} {rest skipped others : List Char} {n : Nat}
    (hbody : bodyLength? mark rest = some n) (hrest : rest = skipped ++ others)
    (hskipped : skipped.length = n + 1) :
    ∃ body, QuotedBody mark body ∧ skipped = body ++ [mark] := by
  rcases exists_of_bodyLength? hbody with ⟨body, after, hafter, hquoted, rfl⟩
  refine ⟨body, hquoted, ?_⟩
  have hsame : skipped ++ others = (body ++ [mark]) ++ after := by
    rw [← hrest, hafter, List.append_assoc]
    rfl
  exact (List.append_inj hsame (by simpa using hskipped)).1

theorem exists_of_balancedLength {directive : String} {cs : List Char} {top : Char}
    {below : List Char} {skip n : Nat} (h : balancedLength directive top below skip cs = .ok n) :
    ∃ skipped w last after, cs = skipped ++ (w ++ last :: after) ∧ skipped.length = skip ∧
      n = skip + w.length ∧ Closing top below w last := by
  induction cs generalizing top below skip n with
  | nil => cases h
  | cons c rest ih =>
      cases skip with
      | succ skip =>
          rw [balancedLength] at h
          rcases map_eq_ok_iff.mp h with ⟨m, hm, rfl⟩
          rcases ih hm with ⟨skipped, w, last, after, rfl, hskipped, rfl, hclosing⟩
          exact ⟨c :: skipped, w, last, after, rfl, by simp [hskipped], by omega, hclosing⟩
      | zero =>
          have hstep {top : Char} {below : List Char} {m : Nat}
              (hm : balancedLength directive top below 0 rest = .ok m) :
              ∃ w last after, rest = w ++ last :: after ∧ m = w.length ∧
                Closing top below w last := by
            rcases ih hm with ⟨skipped, w, last, after, rfl, hskipped, rfl, hclosing⟩
            cases List.length_eq_zero_iff.mp hskipped
            exact ⟨w, last, after, rfl, Nat.zero_add _, hclosing⟩
          rw [balancedLength.eq_def] at h
          dsimp only at h
          by_cases hquote : isQuote c = true
          · rw [if_pos hquote] at h
            cases hbody : bodyLength? c rest with
            | none =>
                rw [hbody] at h
                cases h
            | some length =>
                rw [hbody] at h
                rcases map_eq_ok_iff.mp h with ⟨m, hm, rfl⟩
                rcases ih hm with ⟨skipped, w, last, after, hrest, hskipped, rfl, hclosing⟩
                rcases exists_skipped_literal hbody hrest hskipped with ⟨body, hquoted, rfl⟩
                refine ⟨[], c :: (body ++ [c]) ++ w, last, after, by simp [hrest], rfl, ?_,
                  hclosing.extend fun v hv => ?_⟩
                · simp only [List.length_append, List.length_cons, List.length_nil] at hskipped ⊢
                  omega
                · simpa using Enclosed.literal hquote hquoted hv
          rw [if_neg hquote] at h
          cases hopener : closerOf? c with
          | some closer =>
              rw [hopener] at h
              rcases map_eq_ok_iff.mp h with ⟨m, hm, rfl⟩
              rcases hstep hm with ⟨w, last, after, rfl, rfl, hclosing⟩
              exact ⟨[], c :: w, last, after, rfl, rfl, by simp, hclosing.unwrap hopener⟩
          | none =>
              rw [hopener] at h
              dsimp only at h
              by_cases hcloser : isCloser c = true
              · rw [if_pos hcloser] at h
                by_cases htop : (c == top) = true
                · rw [if_pos htop] at h
                  cases beq_iff_eq.mp htop
                  cases below with
                  | nil =>
                      cases h
                      exact ⟨[], [], c, rest, rfl, rfl, rfl, .outermost .nil⟩
                  | cons next others =>
                      rcases map_eq_ok_iff.mp h with ⟨m, hm, rfl⟩
                      rcases hstep hm with ⟨w, last, after, rfl, rfl, hclosing⟩
                      exact ⟨[], c :: w, last, after, rfl, rfl, by simp, .inner .nil hclosing⟩
                · rw [if_neg htop] at h
                  cases h
              · rw [if_neg hcloser] at h
                rcases map_eq_ok_iff.mp h with ⟨m, hm, rfl⟩
                rcases hstep hm with ⟨w, last, after, rfl, rfl, hclosing⟩
                refine ⟨[], [c] ++ w, last, after, rfl, rfl, by simp,
                  hclosing.extend fun v hv => ?_⟩
                exact .plain (not_isFraming hquote hopener hcloser) hv

theorem enclosed_of_balancedLength {directive : String} {cs : List Char} {closer : Char} {n : Nat}
    (h : balancedLength directive closer [] 0 cs = .ok n) :
    ∃ inner after, cs = inner ++ closer :: after ∧ n = inner.length ∧ Enclosed inner := by
  rcases exists_of_balancedLength h with ⟨skipped, w, last, after, rfl, hskipped, rfl, hclosing⟩
  cases List.length_eq_zero_iff.mp hskipped
  cases hclosing with
  | outermost hw => exact ⟨w, after, rfl, Nat.zero_add _, hw⟩

/-! # Statements -/

/--
A text in which no semicolon ends a statement, with the number of open brackets before and after
it. Brackets are only counted here: one that closes need not be of the kind that has been opened.
-/
inductive Unended : Int → List Char → Int → Prop where
  | nil {depth : Int} : Unended depth [] depth
  | plain {depth final : Int} {c : Char} {rest : List Char} :
      isFraming c = false → c ≠ ';' → Unended depth rest final → Unended depth (c :: rest) final
  | semicolon {depth final : Int} {rest : List Char} :
      0 < depth → Unended depth rest final → Unended depth (';' :: rest) final
  | literal {depth final : Int} {mark : Char} {body rest : List Char} :
      isQuote mark = true → QuotedBody mark body → Unended depth rest final →
      Unended depth (mark :: (body ++ mark :: rest)) final
  | opener {depth final : Int} {c : Char} {rest : List Char} :
      (closerOf? c).isSome = true → Unended (depth + 1) rest final →
      Unended depth (c :: rest) final
  | closer {depth final : Int} {c : Char} {rest : List Char} :
      isCloser c = true → Unended (depth - 1) rest final → Unended depth (c :: rest) final

theorem exists_of_statementLength? {cs : List Char} {depth : Int} {skip n : Nat}
    (h : statementLength? depth skip cs = some n) :
    ∃ skipped w after final, cs = skipped ++ (w ++ ';' :: after) ∧ skipped.length = skip ∧
      n = skip + w.length ∧ Unended depth w final ∧ final ≤ 0 := by
  induction cs generalizing depth skip n with
  | nil => cases h
  | cons c rest ih =>
      cases skip with
      | succ skip =>
          rw [statementLength?] at h
          rcases Option.map_eq_some_iff.mp h with ⟨m, hm, rfl⟩
          rcases ih hm with ⟨skipped, w, after, final, rfl, hskipped, rfl, hw, hfinal⟩
          exact ⟨c :: skipped, w, after, final, rfl, by simp [hskipped], by omega, hw, hfinal⟩
      | zero =>
          rw [statementLength?.eq_def] at h
          dsimp only at h
          by_cases hquote : isQuote c = true
          · rw [if_pos hquote] at h
            cases hbody : bodyLength? c rest with
            | none =>
                rw [hbody] at h
                cases h
            | some length =>
                rw [hbody] at h
                rcases Option.map_eq_some_iff.mp h with ⟨m, hm, rfl⟩
                rcases ih hm with ⟨skipped, w, after, final, hrest, hskipped, rfl, hw, hfinal⟩
                rcases exists_skipped_literal hbody hrest hskipped with ⟨body, hquoted, rfl⟩
                refine ⟨[], c :: (body ++ [c]) ++ w, after, final, by simp [hrest], rfl, ?_, ?_,
                  hfinal⟩
                · simp only [List.length_append, List.length_cons, List.length_nil] at hskipped ⊢
                  omega
                · simpa using Unended.literal hquote hquoted hw
          · have hstep {depth : Int} {m : Nat} (hm : statementLength? depth 0 rest = some m) :
                ∃ w after final, rest = w ++ ';' :: after ∧ m = w.length ∧
                  Unended depth w final ∧ final ≤ 0 := by
              rcases ih hm with ⟨skipped, w, after, final, rfl, hskipped, rfl, hw, hfinal⟩
              cases List.length_eq_zero_iff.mp hskipped
              exact ⟨w, after, final, rfl, Nat.zero_add _, hw, hfinal⟩
            rw [if_neg hquote] at h
            by_cases hopener : (closerOf? c).isSome = true
            · rw [if_pos hopener] at h
              rcases Option.map_eq_some_iff.mp h with ⟨m, hm, rfl⟩
              rcases hstep hm with ⟨w, after, final, rfl, rfl, hw, hfinal⟩
              exact ⟨[], c :: w, after, final, rfl, rfl, by simp, .opener hopener hw, hfinal⟩
            rw [if_neg hopener] at h
            by_cases hcloser : isCloser c = true
            · rw [if_pos hcloser] at h
              rcases Option.map_eq_some_iff.mp h with ⟨m, hm, rfl⟩
              rcases hstep hm with ⟨w, after, final, rfl, rfl, hw, hfinal⟩
              exact ⟨[], c :: w, after, final, rfl, rfl, by simp, .closer hcloser hw, hfinal⟩
            rw [if_neg hcloser] at h
            by_cases hend : (c == ';' && decide (depth ≤ 0)) = true
            · rw [if_pos hend] at h
              cases h
              rcases Bool.and_eq_true_iff.mp hend with ⟨hc, hdepth⟩
              cases beq_iff_eq.mp hc
              exact ⟨[], [], rest, depth, rfl, rfl, rfl, .nil, of_decide_eq_true hdepth⟩
            · rw [if_neg hend] at h
              rcases Option.map_eq_some_iff.mp h with ⟨m, hm, rfl⟩
              rcases hstep hm with ⟨w, after, final, rfl, rfl, hw, hfinal⟩
              refine ⟨[], c :: w, after, final, rfl, rfl, by simp, ?_, hfinal⟩
              by_cases hc : c = ';'
              · cases hc
                refine .semicolon ?_ hw
                simpa using hend
              · exact .plain (not_isFraming hquote (by simpa using hopener) hcloser) hc hw

end Stencil
