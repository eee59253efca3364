/-!
# Patterns with backtracking

A pattern matches the front of a text. Of two alternatives it tries the preferred one first, and
of all counts of repetitions the greatest; what comes behind may make it fall back on the next.
What a pattern leaves of a text depends on the characters it takes only. So a match stays the
match that is found when characters behind it are cut off, and nothing new matches then.
-/

namespace Stencil

inductive Regex where
  | nothing
  | one (test : Char → Bool)
  | both (first second : Regex)
  | either (preferred other : Regex)
  | many (body : Regex)

namespace Regex

/-- What is left after each count of steps, the greatest first. Each step takes something. -/
def repeats (step : List Char → List (List Char)) (cs : List Char) : List (List Char) :=
  (step cs).flatMap (fun rest => if _h : rest.length < cs.length then repeats step rest else []) ++
    [cs]
termination_by cs.length

/-- What is left of a text after each way to match its front, in the order of preference. -/
def rests : Regex → List Char → List (List Char)
  | nothing, cs => [cs]
  | one _, [] => []
  | one test, c :: rest => if test c then [rest] else []
  | both first second, cs => (first.rests cs).flatMap second.rests
  | either preferred other, cs => preferred.rests cs ++ other.rests cs
  | many body, cs => repeats body.rests cs

def match? (r : Regex) (cs : List Char) : Option (List Char) :=
  (r.rests cs).head?

def endAt? (r : Regex) (text : List Char) (pos : Nat) : Option Nat :=
  (r.match? (text.drop pos)).map fun rest => text.length - rest.length

def firstOf? (parts : List (κ × Regex)) (cs : List Char) : Option (κ × List Char) :=
  parts.findSome? fun part => (part.2.match? cs).map fun rest => (part.1, rest)

/-! # Patterns made of others -/

def char (c : Char) : Regex := one (· == c)

def plus (r : Regex) : Regex := both r (many r)

def optional (r : Regex) : Regex := either r nothing

def word (w : List Char) : Regex := w.foldr (fun c r => both (char c) r) nothing

def anyWord (words : List (List Char)) (other : Regex) : Regex :=
  words.foldr (fun w r => either (word w) r) other

/-! # What is left is an end of the text -/

theorem suffix_of_mem_repeats {step : List Char → List (List Char)}
    (hstep : ∀ cs, ∀ rest ∈ step cs, rest <:+ cs) {cs rest : List Char}
    (h : rest ∈ repeats step cs) : rest <:+ cs := by
  induction cs using repeats.induct with
  | case1 cs ih =>
      rw [repeats, List.mem_append, List.mem_flatMap, List.mem_singleton] at h
      rcases h with ⟨mid, hmid, h⟩ | rfl
      · split at h
        · rename_i hshorter
          exact (ih mid hshorter h).trans (hstep cs mid hmid)
        · cases h
      · exact List.suffix_refl _

theorem suffix_of_mem_rests {r : Regex} {cs rest : List Char} (h : rest ∈ r.rests cs) :
    rest <:+ cs := by
  induction r generalizing cs rest with
  | nothing =>
      rw [rests, List.mem_singleton] at h
      exact h ▸ List.suffix_refl _
  | one test =>
      cases cs with
      | nil => cases h
      | cons c others =>
          rw [rests] at h
          split at h
          · rw [List.mem_singleton] at h
            exact h ▸ List.suffix_cons c others
          · cases h
  | both first second ihFirst ihSecond =>
      rw [rests, List.mem_flatMap] at h
      rcases h with ⟨mid, hmid, h⟩
      exact (ihSecond h).trans (ihFirst hmid)
  | either preferred other ihPreferred ihOther =>
      rw [rests, List.mem_append] at h
      exact h.elim ihPreferred ihOther
  | many body ih => exact suffix_of_mem_repeats (fun _ _ => ih) h

/-! # What lies behind a match -/

def leaves (behind rest : List Char) : Bool :=
  behind.length ≤ rest.length

theorem leaves_append (w behind : List Char) : leaves behind (w ++ behind) = true := by
  simp [leaves]

theorem filter_leaves_eq_nil {behind cs : List Char} {found : List (List Char)}
    (hcs : leaves behind cs = false) (hfound : ∀ rest ∈ found, rest <:+ cs) :
    found.filter (leaves behind) = [] := by
  rw [List.filter_eq_nil_iff]
  intro rest hrest
  have hshorter := (hfound rest hrest).length_le
  simp only [leaves, decide_eq_false_iff_not, decide_eq_true_eq] at hcs ⊢
  omega

theorem filter_leaves_flatMap {behind : List Char} {found : List (List Char)}
    {next : List Char → List (List Char)} (hnext : ∀ cs, ∀ rest ∈ next cs, rest <:+ cs) :
    (found.flatMap next).filter (leaves behind) =
      (found.filter (leaves behind)).flatMap fun cs => (next cs).filter (leaves behind) := by
  induction found with
  | nil => rfl
  | cons cs others ih =>
      rw [List.flatMap_cons, List.filter_append, ih, List.filter_cons]
      cases hcs : leaves behind cs with
      | true => rfl
      | false => rw [filter_leaves_eq_nil hcs (hnext cs)]; rfl

theorem repeats_append {step : List Char → List (List Char)}
    (hsuffix : ∀ cs, ∀ rest ∈ step cs, rest <:+ cs) (behind : List Char)
    (hstep : ∀ w, (step (w ++ behind)).filter (leaves behind) = (step w).map (· ++ behind))
    (w : List Char) :
    (repeats step (w ++ behind)).filter (leaves behind) =
      (repeats step w).map (· ++ behind) := by
  induction w using repeats.induct with
  | case1 w ih =>
      have hmore : ∀ cs : List Char, ∀ rest ∈ (if _h : cs.length < (w ++ behind).length then
          repeats step cs else []), rest <:+ cs := by
        intro cs rest hrest
        split at hrest
        · exact suffix_of_mem_repeats hsuffix hrest
        · cases hrest
      rw [repeats, repeats, List.filter_append, filter_leaves_flatMap hmore, hstep,
        List.map_append, List.map_flatMap, List.flatMap_map]
      congr 1
      · congr 1
        funext rest
        simp only [List.length_append, Nat.add_lt_add_iff_right]
        split
        · rename_i hshorter
          exact ih rest hshorter
        · rfl
      · simp [leaves_append]

theorem rests_append (r : Regex) (w behind : List Char) :
    (r.rests (w ++ behind)).filter (leaves behind) = (r.rests w).map (· ++ behind) := by
  induction r generalizing w with
  | nothing => simp [rests, leaves_append]
  | one test =>
      cases w with
      | nil =>
          cases behind with
          | nil => rfl
          | cons c rest =>
              cases hc : test c <;> simp [rests, hc, leaves]
      | cons c others =>
          rw [List.cons_append, rests, rests]
          split <;> simp [leaves_append]
  | both first second ihFirst ihSecond =>
      rw [rests, filter_leaves_flatMap (fun _ _ => suffix_of_mem_rests), ihFirst, rests,
        List.map_flatMap, List.flatMap_map]
      simp only [ihSecond]
  | either preferred other ihPreferred ihOther =>
      rw [rests, rests, List.filter_append, ihPreferred, ihOther, List.map_append]
  | many body ih =>
      exact repeats_append (fun _ _ => suffix_of_mem_rests) behind ih w

theorem match?_of_append {r : Regex} {w rest behind : List Char}
    (h : r.match? (w ++ behind) = some (rest ++ behind)) : r.match? w = some rest := by
  have hrests := r.rests_append w behind
  rcases List.head?_eq_some_iff.mp h with ⟨others, hothers⟩
  rw [hothers, List.filter_cons_of_pos (leaves_append rest behind)] at hrests
  rcases List.map_eq_cons_iff.mp hrests.symm with ⟨first, more, hfirst, hsame, -⟩
  rw [match?, hfirst, List.head?_cons, List.append_cancel_right hsame]

theorem match?_append_eq_none {r : Regex} {w behind : List Char}
    (h : r.match? (w ++ behind) = none) : r.match? w = none := by
  have hrests := r.rests_append w behind
  rw [match?, List.head?_eq_none_iff] at h ⊢
  rw [h, List.filter_nil] at hrests
  exact List.map_eq_nil_iff.mp hrests.symm

theorem firstOf?_cons (part : κ × Regex) (parts : List (κ × Regex)) (cs : List Char) :
    firstOf? (part :: parts) cs =
      ((part.2.match? cs).map fun rest => (part.1, rest)).or (firstOf? parts cs) := by
  rw [firstOf?, List.findSome?_cons]
  cases part.2.match? cs <;> rfl

theorem firstOf?_append_eq_none {parts : List (κ × Regex)} {w behind : List Char}
    (h : firstOf? parts (w ++ behind) = none) : firstOf? parts w = none := by
  rw [firstOf?, List.findSome?_eq_none_iff] at h ⊢
  intro part hpart
  have hpart := h part hpart
  rw [Option.map_eq_none_iff] at hpart ⊢
  exact match?_append_eq_none hpart

theorem firstOf?_of_append {parts : List (κ × Regex)} {kind : κ} {w rest behind : List Char}
    (h : firstOf? parts (w ++ behind) = some (kind, rest ++ behind)) :
    firstOf? parts w = some (kind, rest) := by
  induction parts with
  | nil => cases h
  | cons part parts ih =>
      rw [firstOf?_cons] at h ⊢
      cases hpart : part.2.match? (w ++ behind) with
      | none =>
          rw [hpart] at h
          rw [match?_append_eq_none hpart]
          exact ih h
      | some left =>
          rw [hpart] at h
          cases h
          rw [match?_of_append hpart]
          rfl

/-! # The match that is found -/

theorem match?_either (preferred other : Regex) (cs : List Char) :
    (either preferred other).match? cs = (preferred.match? cs).or (other.match? cs) := by
  rw [match?, rests, List.head?_append, match?, match?]

theorem match?_both_optional (r s : Regex) (cs : List Char) :
    (both r (optional s)).match? cs =
      (r.match? cs).map fun rest => (s.match? rest).getD rest := by
  rw [match?, match?, rests]
  cases r.rests cs with
  | nil => rfl
  | cons rest others =>
      rw [List.flatMap_cons, List.head?_append, List.head?_cons, Option.map_some, optional, rests,
        rests, List.head?_append, match?]
      cases s.rests rest <;> rfl

theorem rests_both_assoc (r s t : Regex) (cs : List Char) :
    (both (both r s) t).rests cs = (both r (both s t)).rests cs := by
  rw [rests, rests, rests, List.flatMap_assoc]
  rfl

theorem rests_both_one_cons (test : Char → Bool) (s : Regex) (c : Char) (rest : List Char) :
    (both (one test) s).rests (c :: rest) = if test c then s.rests rest else [] := by
  rw [rests, rests]
  cases test c <;> simp

theorem match?_both_one_cons (test : Char → Bool) (s : Regex) (c : Char) (rest : List Char) :
    (both (one test) s).match? (c :: rest) = if test c then s.match? rest else none := by
  rw [match?, rests_both_one_cons]
  cases test c <;> rfl

theorem rests_many (body : Regex) (cs : List Char) :
    (many body).rests cs =
      (body.rests cs).flatMap (fun rest =>
        if rest.length < cs.length then (many body).rests rest else []) ++ [cs] := by
  rw [rests, repeats]
  rfl

theorem rests_both_many (body s : Regex) (cs : List Char) :
    (both (many body) s).rests cs =
      (body.rests cs).flatMap (fun rest =>
        if rest.length < cs.length then (both (many body) s).rests rest else []) ++ s.rests cs := by
  rw [rests, rests_many, List.flatMap_append, List.flatMap_assoc, List.flatMap_singleton]
  congr 2
  funext rest
  split <;> rfl

theorem rests_many_one_cons (test : Char → Bool) (c : Char) (rest : List Char) :
    (many (one test)).rests (c :: rest) =
      (if test c then (many (one test)).rests rest else []) ++ [c :: rest] := by
  rw [rests_many]
  cases hc : test c <;> simp [rests, hc]

theorem rests_both_many_one {test : Char → Bool} {s : Regex}
    (hs : ∀ c rest, test c = true → s.rests (c :: rest) = []) (cs : List Char) :
    (both (many (one test)) s).rests cs = s.rests (cs.dropWhile test) := by
  induction cs with
  | nil => rw [rests, rests_many]; simp [rests]
  | cons c rest ih =>
      rw [rests, rests_many_one_cons, List.flatMap_append]
      cases hc : test c with
      | true =>
          rw [rests] at ih
          simpa [hc, hs c rest hc] using ih
      | false => simp [hc]

theorem match?_many_one (test : Char → Bool) (cs : List Char) :
    (many (one test)).match? cs = some (cs.dropWhile test) := by
  induction cs with
  | nil => rw [match?, rests_many]; rfl
  | cons c rest ih =>
      rw [match?, rests_many_one_cons, List.head?_append]
      cases hc : test c with
      | true =>
          rw [match?] at ih
          simp [hc, ih]
      | false => simp [hc]

theorem rests_word (w cs : List Char) :
    (word w).rests cs = if w.isPrefixOf cs then [cs.drop w.length] else [] := by
  induction w generalizing cs with
  | nil => rfl
  | cons c others ih =>
      change (both (one (· == c)) (word others)).rests cs = _
      cases cs with
      | nil => rfl
      | cons d rest =>
          rw [rests_both_one_cons, ih, List.isPrefixOf, BEq.comm]
          cases c == d <;> rfl

theorem match?_anyWord (words : List (List Char)) (other : Regex) (cs : List Char) :
    (anyWord words other).match? cs =
      match words.find? (·.isPrefixOf cs) with
      | some w => some (cs.drop w.length)
      | none => other.match? cs := by
  induction words with
  | nil => rfl
  | cons w words ih =>
      change (either (word w) (anyWord words other)).match? cs = _
      rw [match?_either, ih, match?, rests_word, List.find?_cons]
      cases w.isPrefixOf cs <;> rfl

end Regex
end Stencil
