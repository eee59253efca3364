import Stencil.Proofs.View.LoopHeader
import Stencil.Proofs.View.Origin

/-!
# Names in patterns

What a declaration binds are identifiers, and so are the keys that it reads from a
mapping.
-/

namespace Stencil

def Pattern.IsNamed : Pattern → Prop
  | name target => isName target.toList = true
  | object entries =>
      ∀ entry ∈ entries, isName entry.1.toList = true ∧ isName entry.2.toList = true
  | array targets => ∀ target ∈ targets, isName target.toList = true

/-! # Directives by the way they are read -/

theorem readHeader_ok {keyword : String} {cs : List Char} {start n : Nat}
    {meaning : List Char → Except StructureFault Directive} {directive : Directive}
    (h : readHeader keyword cs start meaning = .ok (directive, n)) :
    ∃ header, meaning header = .ok directive := by
  rcases bind_eq_ok_iff.mp h with ⟨length, -, h⟩
  rcases bind_eq_ok_iff.mp h with ⟨found, hfound, h⟩
  cases h
  exact ⟨_, hfound⟩

theorem Directive.cases_of_read? {cs : List Char} {directive : Directive} {n : Nat}
    (h : read? cs = some (.ok (directive, n))) :
    readInterpolation cs = .ok (directive, n) ∨
      (∃ kind ∈ headed, ∃ header, kind.2 header = .ok directive) ∨
        (∃ start, readDeclaration cs start = .ok (directive, n)) ∨
          directive = .otherwise ∨ directive = .close ∨
            pathLength cs ≠ 0 ∧ n = pathLength cs ∧
              directive = .shorthand (String.ofList (cs.take n)) := by
  unfold read? at h
  split at h
  · exact .inl (Option.some.inj h)
  · split at h
    next kind start hkind =>
        rcases List.exists_of_findSome?_eq_some hkind with ⟨given, hgiven, hstart⟩
        rcases Option.map_eq_some_iff.mp hstart with ⟨length, -, hpair⟩
        cases hpair
        exact .inr (.inl ⟨kind, hgiven, readHeader_ok (Option.some.inj h)⟩)
    next =>
        split at h
        · exact .inr (.inr (.inl ⟨_, Option.some.inj h⟩))
        · split at h
          · cases h
            exact .inr (.inr (.inr (.inl rfl)))
          · split at h
            · cases h
              exact .inr (.inr (.inr (.inr (.inl rfl))))
            · by_cases hpath : pathLength cs = 0
              · simp [hpath] at h
              · simp only [beq_iff_eq, hpath, if_false, Option.some.injEq, Except.ok.injEq,
                  Prod.mk.injEq] at h
                rcases h with ⟨rfl, rfl⟩
                exact .inr (.inr (.inr (.inr (.inr ⟨hpath, rfl, rfl⟩))))

theorem Directive.IsRead.cases {directive : Directive} (h : directive.IsRead) :
    (∃ cs n, readInterpolation cs = .ok (directive, n)) ∨
      (∃ kind ∈ headed, ∃ header, kind.2 header = .ok directive) ∨
        (∃ cs start n, readDeclaration cs start = .ok (directive, n)) ∨
          directive = .otherwise ∨ directive = .close ∨
            ∃ cs, pathLength cs ≠ 0 ∧
              directive = .shorthand (String.ofList (cs.take (pathLength cs))) := by
  rcases h with ⟨cs, n, h⟩
  rcases cases_of_read? h with h | h | ⟨start, h⟩ | h | h | ⟨hpath, rfl, h⟩
  · exact .inl ⟨cs, n, h⟩
  · exact .inr (.inl h)
  · exact .inr (.inr (.inl ⟨cs, start, n, h⟩))
  · exact .inr (.inr (.inr (.inl h)))
  · exact .inr (.inr (.inr (.inr (.inl h))))
  · exact .inr (.inr (.inr (.inr (.inr ⟨cs, hpath, h⟩))))

theorem readEach_ok {header : List Char} {directive : Directive}
    (h : readEach header = .ok directive) :
    ∃ item index collection, directive = .openEach item index collection := by
  unfold readEach at h
  split at h
  · cases h
  · split at h <;> cases h <;> exact ⟨_, _, _, rfl⟩

theorem readInclude_ok {header : List Char} {directive : Directive}
    (h : readInclude header = .ok directive) :
    ∃ path data, directive = .inclusion path data := by
  unfold readInclude at h
  split at h
  · cases h
  · dsimp only at h
    split at h
    · cases h
    · split at h
      · cases h
        exact ⟨_, _, rfl⟩
      · split at h
        · cases h
        · cases h
          exact ⟨_, _, rfl⟩

theorem readIf_ok {header : List Char} {directive : Directive}
    (h : readIf header = .ok directive) : ∃ condition, directive = .openIf condition := by
  unfold readIf at h
  split at h <;> cases h
  exact ⟨_, rfl⟩

theorem readInterpolation_ok {cs : List Char} {directive : Directive} {n : Nat}
    (h : readInterpolation cs = .ok (directive, n)) :
    ∃ e, directive = .interpolation e := by
  rcases bind_eq_ok_iff.mp h with ⟨length, -, h⟩
  dsimp only at h
  split at h
  · cases h
  · cases h
    exact ⟨_, rfl⟩

theorem cases_of_headed {kind : String × (List Char → Except StructureFault Directive)}
    (hkind : kind ∈ headed) {header : List Char} {directive : Directive}
    (h : kind.2 header = .ok directive) :
    (∃ condition, directive = .openIf condition) ∨ (∃ condition, directive = .elif condition) ∨
      (∃ item index collection, directive = .openEach item index collection) ∨
        ∃ path data, directive = .inclusion path data := by
  simp only [headed, List.mem_cons, List.not_mem_nil, or_false] at hkind
  rcases hkind with rfl | rfl | rfl | rfl
  · exact .inl (readIf_ok h)
  · cases h
    exact .inr (.inl ⟨_, rfl⟩)
  · exact .inr (.inr (.inl (readEach_ok h)))
  · exact .inr (.inr (.inr (readInclude_ok h)))

theorem Directive.IsRead.declaration {pattern : Pattern} {e : String}
    (h : (Directive.declaration pattern e).IsRead) :
    ∃ cs start n, readDeclaration cs start = .ok (.declaration pattern e, n) := by
  rcases h.cases with ⟨cs, n, h⟩ | ⟨kind, hkind, header, h⟩ | h | h | h | ⟨cs, -, h⟩
  · rcases readInterpolation_ok h with ⟨_, h⟩
    cases h
  · rcases cases_of_headed hkind h with ⟨_, h⟩ | ⟨_, h⟩ | ⟨_, _, _, h⟩ | ⟨_, _, h⟩ <;> cases h
  · exact h
  · cases h
  · cases h
  · cases h

theorem Directive.take_of_shorthand {cs : List Char} {path : String} {n : Nat}
    (h : read? cs = some (.ok (.shorthand path, n))) : cs.take n = path.toList := by
  rcases cases_of_read? h with h | ⟨kind, hkind, header, h⟩ | ⟨start, h⟩ | h | h | ⟨-, -, h⟩
  · rcases readInterpolation_ok h with ⟨_, h⟩
    cases h
  · rcases cases_of_headed hkind h with ⟨_, h⟩ | ⟨_, h⟩ | ⟨_, _, _, h⟩ | ⟨_, _, h⟩ <;> cases h
  · rcases bind_eq_ok_iff.mp h with ⟨target, -, h⟩
    rcases bind_eq_ok_iff.mp h with ⟨value, -, h⟩
    cases h
  · cases h
  · cases h
  · cases h
    rw [String.toList_ofList]

/-! # Declarations -/

theorem isNamed_of_checkArrayNames {parts : List (List Char)} {names : List String}
    (h : checkArrayNames parts = .ok names) : (Pattern.array names).IsNamed := by
  induction parts generalizing names with
  | nil =>
      cases h
      intro target htarget
      cases htarget
  | cons part rest ih =>
      unfold checkArrayNames at h
      split at h
      next hpart =>
          rcases map_eq_ok_iff.mp h with ⟨others, hrest, rfl⟩
          intro target htarget
          rcases List.mem_cons.mp htarget with rfl | htarget
          · rwa [String.toList_ofList]
          · exact ih hrest target htarget
      · cases h

theorem isNamed_of_checkObjectEntries {parts : List (List Char)}
    {entries : List (String × String)} (h : checkObjectEntries parts = .ok entries) :
    (Pattern.object entries).IsNamed := by
  induction parts generalizing entries with
  | nil =>
      cases h
      intro entry hentry
      cases hentry
  | cons part rest ih =>
      unfold checkObjectEntries at h
      dsimp only at h
      split at h
      next hpart =>
          rw [Bool.and_eq_true] at hpart
          rcases map_eq_ok_iff.mp h with ⟨others, hrest, rfl⟩
          intro entry hentry
          rcases List.mem_cons.mp hentry with rfl | hentry
          · simpa only [String.toList_ofList] using hpart
          · exact ih hrest entry hentry
      · cases h

theorem isNamed_of_readPattern {opener : Char} {inner : List Char} {pattern : Pattern}
    (h : readPattern opener inner = .ok pattern) : pattern.IsNamed := by
  unfold readPattern at h
  dsimp only at h
  split at h
  · cases h
  · split at h
    · rcases map_eq_ok_iff.mp h with ⟨names, hnames, rfl⟩
      exact isNamed_of_checkArrayNames hnames
    · rcases map_eq_ok_iff.mp h with ⟨entries, hentries, rfl⟩
      exact isNamed_of_checkObjectEntries hentries

theorem isNamed_of_readTarget {cs : List Char} {pattern : Pattern} {n : Nat}
    (h : readTarget cs = .ok (pattern, n)) : pattern.IsNamed := by
  unfold readTarget at h
  split at h
  · cases h
  next c rest =>
      split at h
      · split at h
        · cases h
        next length hlength =>
            rcases map_eq_ok_iff.mp h with ⟨found, hpattern, h⟩
            cases h
            exact isNamed_of_readPattern hpattern
      · by_cases hname : nameLength (c :: rest) = 0
        · simp [hname] at h
        · simp only [beq_iff_eq, hname, if_false, Except.ok.injEq, Prod.mk.injEq] at h
          rw [← h.1]
          change isName (String.toList (String.ofList _)) = true
          rw [String.toList_ofList]
          exact Grammar.isName_take_nameLength hname

theorem Directive.IsRead.isNamed {pattern : Pattern} {e : String}
    (h : (Directive.declaration pattern e).IsRead) : pattern.IsNamed := by
  rcases h.declaration with ⟨cs, start, n, h⟩
  rcases bind_eq_ok_iff.mp h with ⟨target, htarget, h⟩
  rcases bind_eq_ok_iff.mp h with ⟨value, hvalue, h⟩
  cases h
  exact isNamed_of_readTarget htarget

end Stencil
