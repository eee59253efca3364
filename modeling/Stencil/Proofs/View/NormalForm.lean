import Mathlib.Data.List.Chain
import Stencil.Proofs.View.Trimming

/-!
# Normal form

The tree of a view is in normal form. No text in it is empty, and no two texts stand side by side
in a body. Conditionals have an arm, patterns an entry, paths of includes something to say. What
declarations and loops bind are identifiers, and a shorthand is a row of identifiers with points
between them, which is an expression.
-/

namespace Stencil

open Grammar

/-! # Dotted names as expressions -/

namespace Text

theorem trim_of_isTrimmed {cs : List Char} (h : IsTrimmed cs) : trim cs = cs := by
  have hstart : trimStart cs = cs := by
    cases cs with
    | nil => rfl
    | cons c rest => exact View.trimStart_append_of_inked (h.first c rfl) rest
  have hend : trimEnd cs = cs := by
    refine List.rdropWhile_eq_self_iff.mpr ?_
    intro hfilled hblank
    have hlast := h.last (cs.getLast hfilled) (by rw [List.getLast?_eq_some_getLast hfilled]; rfl)
    rw [hblank] at hlast
    cases hlast
  rw [trim, hstart, hend]

theorem strip_of_isTrimmed {s : String} (h : IsTrimmed s.toList) : strip s = s := by
  rw [strip, trim_of_isTrimmed h, String.ofList_toList]

end Text

namespace Grammar

theorem lexeme?_point {c : Char} (hc : isNameStart c = true) (rest : List Char) :
    lexeme? ('.' :: c :: rest) = some (some .operator, 1) := by
  have hfraction : fractionLength ('.' :: c :: rest) = 0 := by
    simp [fractionLength, digitLength, isDigit_of_isNameStart hc]
  have hnumber : numberLength ('.' :: c :: rest) = 0 := by
    have hwhole : digitLength ('.' :: c :: rest) = 0 := by
      simp [digitLength, show Text.isDigit '.' = false from by decide]
    rw [numberLength, hwhole, List.drop_zero, hfraction]
    rfl
  have hoperator : operatorLength ('.' :: c :: rest) = 1 :=
    operatorLength_short (by decide) (by decide) (c :: rest)
  simp [lexeme?, hnumber, hoperator, stringLength, nameLength,
    show Text.isBlank '.' = false from by decide, show isNameStart '.' = false from by decide]

theorem tokensFrom_point {c : Char} (hc : isNameStart c = true) (rest : List Char)
    (position : Nat) :
    tokensFrom position 0 ('.' :: c :: rest) =
      (tokensFrom (position + 1) 0 (c :: rest)).map (⟨.operator, ".", position⟩ :: ·) := by
  rw [tokensFrom, lexeme?_point hc]
  dsimp only
  cases tokensFrom (position + 1) 0 (c :: rest) <;> rfl

inductive IsMembers : List Token → Prop where
  | nil : IsMembers []
  | cons {point word : Token} {row : List Token} :
      IsSign point "." → word.kind = .name → IsMembers row → IsMembers (point :: word :: row)

inductive IsPath : Expr → Prop where
  | word (word : String) : IsPath (.ofWord word)
  | member {target : Expr} (name : Text) :
      IsPath target → IsPath (.member target (.literal (.str name)))

theorem IsMembers.derives {row : List Token} (h : IsMembers row) {target : Expr}
    (htarget : IsPath target) {before : List Token}
    (hbefore : Derives (.expr .suffixed target) before) :
    ∃ tree, IsPath tree ∧ Derives (.expr .suffixed tree) (before ++ row) := by
  induction h generalizing target before with
  | nil => exact ⟨target, htarget, by rwa [List.append_nil]⟩
  | cons hpoint hword _ ih =>
      rcases ih (.member _ htarget) (.property hbefore hpoint hword) with ⟨tree, htree, hderives⟩
      exact ⟨tree, htree, by simpa using hderives⟩

theorem exists_tokens_of_dotted {w : List Char} (h : Dotted w) (position : Nat) :
    ∃ word row stop, tokensFrom position 0 w = .ok (word :: (row ++ [stop])) ∧
      word.kind = .name ∧ IsMembers row := by
  induction h generalizing position with
  | @name w hname =>
      have hnone : ∀ c ∈ ([] : List Char).head?, isNameChar c = false := by simp
      have hrow := tokensFrom_name hname hnone position
      rw [List.append_nil] at hrow
      exact ⟨_, [], _, hrow, rfl, .nil⟩
  | @member w rest hname hrest ih =>
      rcases ih (position + w.length + 1) with ⟨word, row, stop, htokens, hword, hrow⟩
      rcases hrest.exists_head with ⟨c, more, rfl, hc⟩
      refine ⟨⟨.name, String.ofList w, position⟩,
        ⟨.operator, ".", position + w.length⟩ :: word :: row, stop, ?_, rfl,
        .cons ⟨rfl, rfl⟩ hword hrow⟩
      rw [tokensFrom_name hname (by simp [show isNameChar '.' = false from by decide]),
        tokensFrom_point hc, htokens]
      rfl

theorem exists_compile_of_dotted {path : String} (h : Dotted path.toList) :
    ∃ tree, IsPath tree ∧ Expr.compile path = .ok tree := by
  rcases exists_tokens_of_dotted h 0 with ⟨word, row, stop, htokens, hword, hrow⟩
  have htokenize : tokenize (Text.strip path) = .ok (word :: (row ++ [stop])) := by
    rw [Text.strip_of_isTrimmed (isTrimmed_of_dotted h)]
    exact htokens
  rcases hrow.derives (.word word.text) (.tighter rfl (.word hword)) with ⟨tree, hpath, htree⟩
  refine ⟨tree, hpath, (compile_eq_ok_iff htokenize tree).mpr ?_⟩
  have hlast : (word :: (row ++ [stop])).dropLast = [word] ++ row := by
    rw [← List.cons_append, List.dropLast_concat]
    rfl
  rw [hlast]
  exact htree.of_suffixed

end Grammar

theorem isName_of_mem_splitOnP {w : List Char} (h : Dotted w) :
    ∀ part ∈ w.splitOnP (· == '.'), isName part = true := by
  have hpointless {v : List Char} (hv : isName v = true) : ∀ c ∈ v, (c == '.') = false := by
    intro c hc
    refine beq_eq_false_iff_ne.mpr ?_
    rintro rfl
    exact absurd (isNameChar_of_isName hv _ hc) (by decide)
  induction h with
  | name hname =>
      rw [List.splitOnP_eq_singleton (hpointless hname)]
      exact List.forall_mem_singleton.mpr hname
  | member hname _ ih =>
      rw [List.splitOnP_append_cons_of_forall_mem (hpointless hname) '.' rfl]
      exact List.forall_mem_cons.mpr ⟨hname, ih⟩

/-! # Names of loops -/

theorem isName_of_indexName? {cs rest : List Char} {index : String}
    (h : indexName? cs = some (index, rest)) : isName index.toList = true := by
  unfold indexName? at h
  split at h
  · dsimp only at h
    split at h
    · cases h
    next hlength =>
        cases h
        rw [String.toList_ofList]
        exact isName_take_nameLength (by simpa using hlength)
  · cases h

theorem isName_of_eachNames? {header collection : List Char} {item index : String}
    (h : eachNames? header = some (item, index, collection)) :
    isName item.toList = true ∧ isName index.toList = true := by
  unfold eachNames? at h
  dsimp only at h
  split at h
  · cases h
  next hlength =>
      have hitem : isName (String.ofList ((Text.trimStart header).take
          (nameLength (Text.trimStart header)))).toList = true := by
        rw [String.toList_ofList]
        exact isName_take_nameLength (by simpa using hlength)
      split at h
      next found rest hindex =>
          rcases Option.map_eq_some_iff.mp h with ⟨others, -, heq⟩
          cases heq
          exact ⟨hitem, isName_of_indexName? hindex⟩
      next =>
          rcases Option.map_eq_some_iff.mp h with ⟨others, -, heq⟩
          cases heq
          exact ⟨hitem, by decide⟩

theorem isName_of_readEach {header : List Char} {item index collection : String}
    (h : readEach header = .ok (.openEach item index collection)) :
    isName item.toList = true ∧ isName index.toList = true := by
  unfold readEach at h
  split at h
  · cases h
  · split at h
    next hnames =>
        cases h
        exact isName_of_eachNames? hnames
    next =>
        cases h
        exact ⟨by decide, by decide⟩

/-! # Entries of patterns -/

def Pattern.IsFilled : Pattern → Prop
  | name _ => True
  | object entries => entries ≠ []
  | array targets => targets ≠ []

theorem length_of_checkArrayNames {parts : List (List Char)} {names : List String}
    (h : checkArrayNames parts = .ok names) : names.length = parts.length := by
  induction parts generalizing names with
  | nil =>
      cases h
      rfl
  | cons part rest ih =>
      unfold checkArrayNames at h
      split at h
      · rcases map_eq_ok_iff.mp h with ⟨others, hrest, rfl⟩
        rw [List.length_cons, List.length_cons, ih hrest]
      · cases h

theorem length_of_checkObjectEntries {parts : List (List Char)}
    {entries : List (String × String)} (h : checkObjectEntries parts = .ok entries) :
    entries.length = parts.length := by
  induction parts generalizing entries with
  | nil =>
      cases h
      rfl
  | cons part rest ih =>
      unfold checkObjectEntries at h
      dsimp only at h
      split at h
      · rcases map_eq_ok_iff.mp h with ⟨others, hrest, rfl⟩
        rw [List.length_cons, List.length_cons, ih hrest]
      · cases h

theorem isFilled_of_readPattern {opener : Char} {inner : List Char} {pattern : Pattern}
    (h : readPattern opener inner = .ok pattern) : pattern.IsFilled := by
  unfold readPattern at h
  dsimp only at h
  split at h
  · cases h
  next hfilled =>
      have hparts : (commaParts inner).length ≠ 0 := by
        intro hnone
        rw [List.length_eq_zero_iff.mp hnone] at hfilled
        exact hfilled rfl
      split at h
      · rcases map_eq_ok_iff.mp h with ⟨names, hnames, rfl⟩
        rintro rfl
        exact hparts (length_of_checkArrayNames hnames).symm
      · rcases map_eq_ok_iff.mp h with ⟨entries, hentries, rfl⟩
        rintro rfl
        exact hparts (length_of_checkObjectEntries hentries).symm

theorem isFilled_of_readTarget {cs : List Char} {pattern : Pattern} {n : Nat}
    (h : readTarget cs = .ok (pattern, n)) : pattern.IsFilled := by
  unfold readTarget at h
  split at h
  · cases h
  · split at h
    · split at h
      · cases h
      · rcases map_eq_ok_iff.mp h with ⟨found, hpattern, h⟩
        cases h
        exact isFilled_of_readPattern hpattern
    · dsimp only at h
      split at h
      · cases h
      · cases h
        trivial

/-! # Paths of includes -/

theorem saysNothing_of_readInclude {header : List Char} {path : Text} {data : Option String}
    (h : readInclude header = .ok (.inclusion path data)) : path.saysNothing = false := by
  unfold readInclude at h
  split at h
  · cases h
  · dsimp only at h
    split at h
    · cases h
    next hpath =>
        split at h
        · cases h
          simpa using hpath
        · split at h
          · cases h
          · cases h
            simpa using hpath

/-! # Directives -/

def Directive.IsNormal : Directive → Prop
  | .shorthand path => Dotted path.toList
  | .declaration pattern _ => pattern.IsNamed ∧ pattern.IsFilled
  | .openEach item index _ => isName item.toList = true ∧ isName index.toList = true
  | .inclusion path _ => path.saysNothing = false
  | _ => True

theorem Directive.IsRead.isNormal {directive : Directive} (h : directive.IsRead) :
    directive.IsNormal := by
  rcases h.cases with ⟨cs, n, h⟩ | ⟨kind, hkind, header, h⟩ | ⟨cs, start, n, h⟩ | rfl | rfl |
    ⟨cs, hpath, rfl⟩
  · rcases readInterpolation_ok h with ⟨e, rfl⟩
    trivial
  · simp only [headed, List.mem_cons, List.not_mem_nil, or_false] at hkind
    rcases hkind with rfl | rfl | rfl | rfl
    · rcases readIf_ok h with ⟨condition, rfl⟩
      trivial
    · cases h
      trivial
    · rcases readEach_ok h with ⟨item, index, collection, rfl⟩
      exact isName_of_readEach h
    · rcases readInclude_ok h with ⟨path, data, rfl⟩
      exact saysNothing_of_readInclude h
  · rcases bind_eq_ok_iff.mp h with ⟨target, htarget, h⟩
    rcases bind_eq_ok_iff.mp h with ⟨value, -, h⟩
    cases h
    exact ⟨isNamed_of_readTarget htarget, isFilled_of_readTarget htarget⟩
  · trivial
  · trivial
  · rcases exists_of_pathLength hpath with ⟨w, after, rfl, hlength, hdotted, -⟩
    rw [← hlength, List.take_left]
    change Dotted (String.ofList w).toList
    rw [String.toList_ofList]
    exact hdotted

/-! # Texts side by side -/

namespace Node

def Spaced (nodes : List Node) : Prop :=
  nodes.IsChain fun before after => before.isText = false ∨ after.isText = false

/-- Whether a node is in normal form, the nodes inside it not counted. -/
def IsNormal : Node → Prop
  | text _ s => s ≠ ""
  | interpolation _ _ => True
  | shorthand _ path =>
      (∀ part ∈ path.toList.splitOnP (· == '.'), isName part = true) ∧
        ∃ tree, Expr.compile path = .ok tree
  | declaration _ pattern _ => pattern.IsNamed ∧ pattern.IsFilled
  | conditional _ branches otherwise =>
      branches ≠ [] ∧ (∀ branch ∈ branches, Spaced branch.body) ∧ ∀ body ∈ otherwise, Spaced body
  | loop _ item index _ body =>
      isName item.toList = true ∧ isName index.toList = true ∧ Spaced body
  | inclusion _ path _ => path.saysNothing = false

end Node

section Places

variable {text : List Char} {start middle stop : Nat}

theorem Stands.isNormal {meaning : Directive} (h : Stands text start meaning stop) :
    meaning.IsNormal :=
  Directive.IsRead.isNormal ⟨_, _, h.read⟩

theorem IsRun.not_followed (h : IsRun text start middle) : ¬ IsRun text middle stop := by
  intro hnext
  rcases h.ends with hend | hbegins
  · exact absurd hnext.ahead (by have := hnext.inside; omega)
  · exact hbegins.not_isLiteral hnext.ahead hnext.literal

theorem Covers.isText_or {node next : Node} (h : Covers text start node middle)
    (hnext : Covers text middle next stop) : node.isText = false ∨ next.isText = false := by
  cases h with
  | text hrun =>
      cases hnext with
      | text hother => exact absurd hother hrun.not_followed
      | _ => exact .inr rfl
  | _ => exact .inl rfl

theorem Tiles.exists_last {nodes : List Node} {node : Node} (h : Tiles text start nodes stop)
    (hnode : node ∈ nodes.getLast?) : ∃ first, Covers text first node stop := by
  cases h with
  | nil => cases hnode
  | concat hbefore hlast =>
      rw [List.getLast?_concat] at hnode
      cases hnode
      exact ⟨_, hlast⟩

theorem Tiles.spaced {start stop : Nat} {nodes : List Node} :
    Tiles text start nodes stop → Node.Spaced nodes
  | .nil => .nil
  | .concat hbefore hnode => by
      refine hbefore.spaced.append (.singleton _) ?_
      intro before hlast after hthere
      cases hthere
      rcases hbefore.exists_last hlast with ⟨first, hcovers⟩
      exact hcovers.isText_or hnode

theorem Arms.spaced {start stop : Nat} {branches : List (Branch Node)} {branch : Branch Node} :
    Arms text start branches stop → branch ∈ branches → Node.Spaced branch.body
  | .first _ hbody, hbranch => by
      cases List.mem_singleton.mp hbranch
      exact hbody.spaced
  | .next hbefore _ hbody, hbranch => by
      rcases List.mem_append.mp hbranch with hbranch | hbranch
      · exact Arms.spaced hbefore hbranch
      · cases List.mem_singleton.mp hbranch
        exact hbody.spaced

theorem Arms.ne_nil {branches : List (Branch Node)} (h : Arms text start branches stop) :
    branches ≠ [] := by
  cases h <;> simp

theorem Covers.isNormal {node : Node} (h : Covers text start node stop) : node.IsNormal := by
  cases h with
  | text hrun =>
      intro hempty
      exact slice_ne_nil hrun.ahead hrun.inside (String.ofList_eq_empty_iff.mp hempty)
  | interpolation => trivial
  | shorthand hstands =>
      have hdotted : Dotted _ := hstands.isNormal
      rcases exists_compile_of_dotted hdotted with ⟨tree, -, htree⟩
      exact ⟨isName_of_mem_splitOnP hdotted, tree, htree⟩
  | declaration hstands => exact hstands.isNormal
  | inclusion hstands => exact hstands.isNormal
  | loop hopen hbody => exact ⟨hopen.isNormal.1, hopen.isNormal.2, hbody.spaced⟩
  | conditional harms =>
      refine ⟨harms.ne_nil, fun branch => harms.spaced, ?_⟩
      rintro body hbody
      cases hbody
  | otherwise harms _ hbody =>
      refine ⟨harms.ne_nil, fun branch => harms.spaced, ?_⟩
      rintro found hfound
      cases hfound
      exact hbody.spaced

end Places

namespace View

/-- The tree of a view is in normal form, at any depth. -/
theorem isNormal_of_parse {text : String} {nodes : List Node} (h : parse text = .ok nodes) :
    Node.Spaced nodes ∧ ∀ node ∈ Node.walkAll nodes, node.IsNormal := by
  have htiles := tiles_of_parse h
  refine ⟨htiles.spaced, ?_⟩
  intro node hnode
  rcases htiles.inside hnode with ⟨start, stop, hcovers⟩
  exact hcovers.isNormal

theorem isNormal_of_parse_nested :
    (parse "a@x.y@var [k] = z; @each (i, j in c)b@if (d)e@end@end").map (fun nodes =>
        (Node.walkAll nodes).map Node.isText) =
          .ok [true, false, false, false, true, false, true] ∧
      ∃ nodes, parse "a@x.y@var [k] = z; @each (i, j in c)b@if (d)e@end@end" = .ok nodes ∧
        Node.Spaced nodes ∧ ∀ node ∈ Node.walkAll nodes, node.IsNormal := by
  have hwalk : (parse "a@x.y@var [k] = z; @each (i, j in c)b@if (d)e@end@end").map (fun nodes =>
      (Node.walkAll nodes).map Node.isText) =
        .ok [true, false, false, false, true, false, true] := by
    decide +kernel
  rcases map_eq_ok_iff.mp hwalk with ⟨nodes, hparse, -⟩
  exact ⟨hwalk, nodes, hparse, isNormal_of_parse hparse⟩

end View
end Stencil
