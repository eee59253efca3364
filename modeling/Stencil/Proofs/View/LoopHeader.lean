import Stencil.Proofs.View.Scanning

/-!
# Headers of loops

A loop may name its items and their index before the collection, or give the
collection alone. A header that is one expression is never taken for one that names:
names are followed by a comma or by the word `in`, and no expression goes on like
that after a name.
-/

namespace Stencil
namespace Grammar

/-! # First characters -/

theorem lexeme?_cons {c : Char} (hblank : Text.isBlank c = false)
    (hdigit : Text.isDigit c = false) (hpoint : c ≠ '.') (hquote : isQuote c = false)
    (rest : List Char) :
    lexeme? (c :: rest) =
      if nameLength (c :: rest) != 0 then some (some .name, nameLength (c :: rest))
      else if operatorLength (c :: rest) != 0 then
        some (some .operator, operatorLength (c :: rest))
      else none := by
  have hnumber : numberLength (c :: rest) = 0 := by
    simp [numberLength, digitLength, hdigit, fractionLength, hpoint]
  have hstring : stringLength (c :: rest) = 0 := by
    unfold isQuote at hquote
    simp [stringLength, hquote]
  simp [lexeme?, hblank, hnumber, hstring]

theorem isBlank_isDigitSign_of_isNameChar :
    ∀ n : Fin 128, isNameChar (Char.ofNat n) = true →
      Text.isBlank (Char.ofNat n) = false ∧
      (isNameStart (Char.ofNat n) = true → Text.isDigitSign (Char.ofNat n) = false) := by
  decide

theorem toNat_lt_of_le {c : Char} {high : UInt32} (h : c.val ≤ high)
    (hhigh : high.toNat < 128) : c.toNat < 128 :=
  Nat.lt_of_le_of_lt (UInt32.le_iff_toNat_le.mp h) hhigh

theorem toNat_lt_of_isNameChar {c : Char} (h : isNameChar c = true) : c.toNat < 128 := by
  rw [isNameChar, Bool.or_eq_true, Bool.or_eq_true, beq_iff_eq, beq_iff_eq] at h
  rcases h with (h | rfl) | rfl
  · change ((c.isUpper || c.isLower) || c.isDigit) = true at h
    rw [Bool.or_eq_true, Bool.or_eq_true] at h
    rcases h with (hupper | hlower) | hdigit
    · exact toNat_lt_of_le (of_decide_eq_true hupper).2 (by decide)
    · have hbounds := Bool.and_eq_true_iff.mp hlower
      exact toNat_lt_of_le (of_decide_eq_true hbounds.2) (by decide)
    · have hbounds := Bool.and_eq_true_iff.mp hdigit
      exact toNat_lt_of_le (of_decide_eq_true hbounds.2) (by decide)
  · decide
  · decide

theorem isNameChar_of_isNameStart {c : Char} (h : isNameStart c = true) :
    isNameChar c = true := by
  simp only [isNameStart, isNameChar, Char.isAlphanum, Bool.or_eq_true] at h ⊢
  rcases h with (h | h) | h <;> simp [h]

theorem isBlank_of_isNameChar {c : Char} (h : isNameChar c = true) : Text.isBlank c = false := by
  have hascii := isBlank_isDigitSign_of_isNameChar ⟨c.toNat, toNat_lt_of_isNameChar h⟩
  rw [Char.ofNat_toNat] at hascii
  exact (hascii h).1

theorem exists_of_isName {w : List Char} (h : isName w = true) :
    ∃ c rest, w = c :: rest ∧ isNameStart c = true ∧ ∀ d ∈ rest, isNameChar d = true := by
  cases w with
  | nil => cases h
  | cons c rest =>
      rw [isName, Bool.and_eq_true, List.all_eq_true] at h
      exact ⟨c, rest, rfl, h.1, h.2⟩

theorem isNameChar_of_isName {w : List Char} (h : isName w = true) :
    ∀ c ∈ w, isNameChar c = true := by
  rcases exists_of_isName h with ⟨c, rest, rfl, hc, hrest⟩
  exact List.forall_mem_cons.mpr ⟨isNameChar_of_isNameStart hc, hrest⟩

theorem isDigitSign_of_isNameStart {c : Char} (h : isNameStart c = true) :
    Text.isDigitSign c = false := by
  have hchar := isNameChar_of_isNameStart h
  have hascii := isBlank_isDigitSign_of_isNameChar ⟨c.toNat, toNat_lt_of_isNameChar hchar⟩
  rw [Char.ofNat_toNat] at hascii
  exact (hascii hchar).2 h

theorem isDigit_of_isNameStart {c : Char} (h : isNameStart c = true) :
    Text.isDigit c = false := by
  have hsign := isDigitSign_of_isNameStart h
  rw [Text.isDigitSign, Bool.or_eq_false_iff] at hsign
  exact hsign.1

theorem lexeme?_of_isNameStart {c : Char} (h : isNameStart c = true) (rest : List Char) :
    lexeme? (c :: rest) = some (some .name, nameLength (c :: rest)) := by
  have hpoint : c ≠ '.' := by
    rintro rfl
    exact absurd h (by decide)
  have hquote : isQuote c = false := by
    cases hc : isQuote c with
    | false => rfl
    | true =>
        rcases eq_of_isQuote hc with rfl | rfl <;> exact absurd h (by decide)
  rw [lexeme?_cons (isBlank_of_isNameChar (isNameChar_of_isNameStart h))
    (isDigit_of_isNameStart h) hpoint hquote]
  simp [nameLength, h]

theorem operatorLength_short {c : Char}
    (hlong : longOperators.all (fun op => op.head?.any (· != c)) = true)
    (hshort : c ∈ shortOperators) (rest : List Char) :
    operatorLength (c :: rest) = 1 := by
  have hnone : longOperators.find? (·.isPrefixOf (c :: rest)) = none := by
    refine List.find?_eq_none.mpr ?_
    intro op hop hfits
    have hhead := List.all_eq_true.mp hlong op hop
    cases op with
    | nil => cases hhead
    | cons d others =>
        rw [List.isPrefixOf_cons_cons, Bool.and_eq_true] at hfits
        simp [eq_of_beq hfits.1] at hhead
  rw [operatorLength, hnone]
  exact if_pos (List.contains_iff_mem.mpr hshort)

theorem lexeme?_comma (rest : List Char) :
    lexeme? (',' :: rest) = some (some .operator, 1) := by
  have hoperator : operatorLength (',' :: rest) = 1 :=
    operatorLength_short (by decide) (by decide) rest
  rw [lexeme?_cons (by decide) (by decide) (by decide) (by decide)]
  simp [nameLength, hoperator, show isNameStart ',' = false from by decide]

theorem nameLength_append {name rest : List Char} (hname : isName name = true)
    (hrest : ∀ c ∈ rest.head?, isNameChar c = false) :
    nameLength (name ++ rest) = name.length := by
  rcases exists_of_isName hname with ⟨c, others, rfl, hc, hothers⟩
  have hstop : rest.takeWhile isNameChar = [] := by
    cases rest with
    | nil => rfl
    | cons d more => simp [hrest d rfl]
  rw [List.cons_append, nameLength, if_pos hc, List.takeWhile_append_of_pos hothers, hstop,
    List.append_nil, List.length_cons, Nat.add_comm]

/-! # First tokens -/

theorem tokensFrom_skip (position : Nat) (w rest : List Char) :
    tokensFrom position w.length (w ++ rest) = tokensFrom (position + w.length) 0 rest := by
  rw [tokensFrom_eq_drop, List.take_left, List.drop_left]

theorem tokensFrom_name {name rest : List Char} (hname : isName name = true)
    (hrest : ∀ c ∈ rest.head?, isNameChar c = false) (position : Nat) :
    tokensFrom position 0 (name ++ rest) =
      (tokensFrom (position + name.length) 0 rest).map
        (⟨.name, String.ofList name, position⟩ :: ·) := by
  have hlength := nameLength_append hname hrest
  rcases exists_of_isName hname with ⟨c, letters, rfl, hc, -⟩
  have hposition : position + 1 + letters.length = position + (letters.length + 1) := by omega
  rw [List.cons_append] at hlength ⊢
  rw [tokensFrom, lexeme?_of_isNameStart hc]
  dsimp only
  rw [hlength, List.length_cons, Nat.add_sub_cancel, tokensFrom_skip, hposition,
    List.take_succ_cons, List.take_left]
  cases tokensFrom (position + (letters.length + 1)) 0 rest <;> rfl

theorem exists_of_name {position : Nat} {name rest : List Char} {tokens : List Token}
    (hname : isName name = true) (hrest : ∀ c ∈ rest.head?, isNameChar c = false)
    (h : tokensFrom position 0 (name ++ rest) = .ok tokens) :
    ∃ first others, tokens = first :: others ∧ first.kind = .name ∧
      tokensFrom (position + name.length) 0 rest = .ok others := by
  rw [tokensFrom_name hname hrest, map_eq_ok_iff] at h
  rcases h with ⟨others, hothers, rfl⟩
  exact ⟨_, others, rfl, rfl, hothers⟩

theorem tokensFrom_blanks {position : Nat} {blanks rest : List Char}
    (hblanks : ∀ c ∈ blanks, Text.isBlank c = true)
    (hrest : ∀ c ∈ rest.head?, Text.isBlank c = false) :
    tokensFrom position 0 (blanks ++ rest) = tokensFrom (position + blanks.length) 0 rest := by
  cases blanks with
  | nil => rfl
  | cons c others =>
      have hstop : rest.takeWhile Text.isBlank = [] := by
        cases rest with
        | nil => rfl
        | cons d more => simp [hrest d rfl]
      have hlexeme : lexeme? (c :: (others ++ rest)) = some (none, others.length + 1) := by
        rw [← List.cons_append, lexeme?, List.takeWhile_append_of_pos hblanks, hstop,
          List.append_nil]
        rfl
      rw [List.cons_append, tokensFrom, hlexeme]
      dsimp only
      rw [Nat.add_sub_cancel, tokensFrom_skip, List.length_cons]
      congr 1
      omega

/-- A name, and after it a comma or, behind white space, another name. -/
def GoesOn (cs : List Char) : Prop :=
  ∃ name blanks c more, cs = name ++ (blanks ++ c :: more) ∧ isName name = true ∧
    (∀ b ∈ blanks, Text.isBlank b = true) ∧ (c = ',' ∨ c = 'i' ∧ blanks ≠ [])

theorem GoesOn.of_append_blanks {cs blanks : List Char} (h : GoesOn (cs ++ blanks))
    (hblanks : ∀ c ∈ blanks, Text.isBlank c = true) :
    GoesOn cs := by
  rcases h with ⟨name, between, c, more, heq, hname, hbetween, hc⟩
  have hsplit : (name ++ between ++ [c]) ++ more = cs ++ blanks := by
    rw [heq]
    simp
  have hinked : Text.isBlank c = false := by
    rcases hc with rfl | ⟨rfl, _⟩ <;> decide
  rcases List.append_eq_append_iff.mp hsplit with ⟨front, rfl, _⟩ | ⟨front, hfront, rfl⟩
  · exact ⟨name, between, c, front, by simp, hname, hbetween, hc⟩
  · rcases List.eq_nil_or_concat front with rfl | ⟨others, d, rfl⟩
    · rw [List.append_nil] at hfront
      exact ⟨name, between, c, [], by rw [← hfront, List.append_assoc], hname, hbetween, hc⟩
    · rw [List.concat_eq_append, ← List.append_assoc] at hfront
      rcases List.append_inj' hfront rfl with ⟨_, hd⟩
      cases hd
      have hblank := hblanks c (by simp)
      rw [hinked] at hblank
      cases hblank

theorem GoesOn.exists_tokens {cs : List Char} (h : GoesOn cs) {position : Nat}
    {tokens : List Token} (htokens : tokensFrom position 0 cs = .ok tokens) :
    ∃ first second others, tokens = first :: second :: others ∧ first.kind = .name ∧
      (second.kind = .name ∨ IsSign second ",") := by
  rcases h with ⟨name, blanks, c, more, rfl, hname, hblanks, hc⟩
  have hinked : Text.isBlank c = false := by
    rcases hc with rfl | ⟨rfl, _⟩ <;> decide
  have hhead : ∀ d ∈ (blanks ++ c :: more).head?, isNameChar d = false := by
    intro d hd
    cases blanks with
    | nil =>
        cases hd
        rcases hc with rfl | ⟨_, hnil⟩
        · decide
        · exact absurd rfl hnil
    | cons b others =>
        cases hd
        cases hchar : isNameChar d with
        | false => rfl
        | true =>
            have hblank := hblanks d (by simp)
            rw [isBlank_of_isNameChar hchar] at hblank
            cases hblank
  rcases exists_of_name hname hhead htokens with ⟨first, others, rfl, hfirst, hothers⟩
  rw [tokensFrom_blanks hblanks (by simpa using hinked), tokensFrom] at hothers
  rcases hc with rfl | ⟨rfl, _⟩
  · rw [lexeme?_comma] at hothers
    dsimp only at hothers
    split at hothers
    · cases hothers
    · cases hothers
      exact ⟨first, _, _, rfl, hfirst, .inr ⟨rfl, rfl⟩⟩
  · rw [lexeme?_of_isNameStart (by decide)] at hothers
    dsimp only at hothers
    split at hothers
    · cases hothers
    · cases hothers
      exact ⟨first, _, _, rfl, hfirst, .inl rfl⟩

/-! # No expression goes on like that -/

theorem ofTokens_ne_ok {first second : Token} {others : List Token}
    (hfirst : first.kind = .name) (hsecond : second.kind = .name ∨ IsSign second ",")
    (tree : Expr) :
    Expr.ofTokens (first :: second :: others) ≠ .ok tree := by
  have hstops : Stops .conditional (second :: others) := by
    cases hsecond with
    | inl hname => exact .of_kind (by simp [hname]) others
    | inr hcomma => exact .of_sign hcomma (by decide) others
  have hstop : second.kind ≠ .stop := by
    cases hsecond with
    | inl hname => simp [hname]
    | inr hcomma => simp [hcomma.1]
  have hread := (Derives.word hfirst).of_primary.readsBack
    (Expr.budgetFor (first :: second :: others)) (second :: others)
    (by simp only [Expr.budgetFor, List.length_cons, List.length_nil]; omega) hstops
  rw [List.singleton_append] at hread
  have hbegin : first.kind ≠ .stop := by simp [hfirst]
  simp only [Expr.ofTokens, beq_iff_eq, hbegin, if_false]
  rw [hread, bind_ok]
  simp [hstop]

theorem not_goesOn_of_compile {source : String} {tree : Expr}
    (h : Expr.compile source = .ok tree) :
    ¬ GoesOn (Text.trimStart source.toList) := by
  intro hgoes
  rcases exists_of_compile h with ⟨tokens, htokens, _⟩
  have htrim : Text.trimStart source.toList = Text.trim source.toList ++
      ((Text.trimStart source.toList).reverse.takeWhile Text.isBlank).reverse := by
    rw [Text.trim, Text.trimEnd, ← List.reverse_append, List.takeWhile_append_dropWhile,
      List.reverse_reverse]
  rw [htrim] at hgoes
  have hinner := hgoes.of_append_blanks fun c hc =>
    List.mem_takeWhile_imp (List.mem_reverse.mp hc)
  rw [← String.toList_ofList (l := Text.trim source.toList)] at hinner
  rcases hinner.exists_tokens htokens with ⟨first, second, others, rfl, hfirst, hsecond⟩
  rw [compile_eq_ofTokens htokens] at h
  exact ofTokens_ne_ok hfirst hsecond tree h

theorem goesOn_of_eachNames? {header : List Char} {item index : String}
    {collection : List Char} (h : eachNames? header = some (item, index, collection)) :
    GoesOn (Text.trimStart header) := by
  unfold eachNames? at h
  dsimp only at h
  generalize Text.trimStart header = named at h ⊢
  split at h
  · cases h
  · rename_i hlength
    have hname : isName (named.take (nameLength named)) = true :=
      isName_take_nameLength (by simpa using hlength)
    have hgo : ∀ c more, Text.trimStart (named.drop (nameLength named)) = c :: more →
        (c = ',' ∨ c = 'i' ∧ blankLength (named.drop (nameLength named)) ≠ 0) →
        GoesOn named := by
      intro c more hmore hc
      refine ⟨named.take (nameLength named),
        (named.drop (nameLength named)).takeWhile Text.isBlank, c, more, ?_, hname, ?_, ?_⟩
      · rw [← hmore, Text.trimStart, List.takeWhile_append_dropWhile, List.take_append_drop]
      · intro b hb
        exact List.mem_takeWhile_imp hb
      · rcases hc with hc | ⟨hc, hblank⟩
        · exact .inl hc
        · refine .inr ⟨hc, ?_⟩
          rintro hnil
          exact hblank (by rw [blankLength, hnil, List.length_nil])
    have hcollection : ∀ found,
        collectionAfterIn? (named.drop (nameLength named)) = some found → GoesOn named := by
      intro found hfound
      unfold collectionAfterIn? at hfound
      split at hfound
      · rename_i after hafter
        dsimp only at hfound
        split at hfound
        · cases hfound
        · rename_i hblank
          simp only [Bool.or_eq_true, beq_iff_eq, not_or] at hblank
          exact hgo _ _ hafter (.inr ⟨rfl, hblank.1⟩)
      · cases hfound
    split at h
    · rename_i other rest hindex
      unfold indexName? at hindex
      split at hindex
      · rename_i more hmore
        exact hgo _ _ hmore (.inl rfl)
      · cases hindex
    · rcases Option.map_eq_some_iff.mp h with ⟨found, hfound, _⟩
      exact hcollection found hfound

theorem eachNames?_of_compile {source : String} {tree : Expr}
    (h : Expr.compile source = .ok tree) :
    eachNames? source.toList = none := by
  cases hnames : eachNames? source.toList with
  | none => rfl
  | some names => exact absurd (goesOn_of_eachNames? hnames) (not_goesOn_of_compile h)

end Grammar
end Stencil
