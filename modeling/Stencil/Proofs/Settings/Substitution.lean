import Mathlib
import Stencil.Proofs.Outcome
import Stencil.Settings.Loading

/-!
# References put in

A settings text that is written as literal text with references in between falls into just these
references again, whatever stands at the seams: a dollar sign right before one, a brace or a colon
right behind it. So the references are replaced where they were written and what is put in for one
of them is never gone through again. The references are answered from the left, and the first one
without an answer ends the whole.
-/

namespace Stencil

/-! # Literal text -/

def Text.IsLiteral (text : Text) : Prop :=
  ¬ [.char '$', .char '\x7b'] <:+: text.points

instance (text : Text) : Decidable text.IsLiteral :=
  inferInstanceAs (Decidable (¬ _))

theorem settingParts_cons {p : CodePoint} {rest : List CodePoint}
    (h : ¬ [.char '$', .char '\x7b'] <+: p :: rest) :
    settingParts (p :: rest) = .point p :: settingParts rest := by
  rw [settingParts]
  rintro more rfl rfl
  exact h (List.prefix_append _ more)

theorem settingParts_literal {text : Text} (htext : text.IsLiteral) {rest : List CodePoint}
    (hrest : rest.head? ≠ some (.char '\x7b')) :
    settingParts (text.points ++ rest) = text.points.map .point ++ settingParts rest := by
  rcases text with ⟨points⟩
  induction points with
  | nil => rfl
  | cons p others ih =>
      have hothers : Text.IsLiteral ⟨others⟩ := fun h =>
        htext (h.trans (List.suffix_cons p _).isInfix)
      have hpair : ¬ [.char '$', .char '\x7b'] <+: p :: (others ++ rest) := by
        intro h
        cases others with
        | nil =>
            rcases (List.cons_prefix_cons.mp h).2 with ⟨more, rfl⟩
            exact hrest rfl
        | cons q more =>
            simp only [List.cons_append, List.cons_prefix_cons, List.nil_prefix, and_true] at h
            refine htext (List.IsPrefix.isInfix ?_)
            rw [h.1, h.2]
            exact List.prefix_append _ more
      rw [List.cons_append, settingParts_cons hpair, ih hothers]
      rfl

/-! # Written references -/

namespace Reference

/-- Whether a reference can be read off its text: it has a name, and nothing in it ends it early. -/
structure IsReadable (reference : Reference) : Prop where
  named : reference.name.points ≠ []
  name : ∀ p ∈ reference.name.points, isNamePoint p = true
  fallback : .char '\x7d' ∉ reference.fallback.written.points

theorem takeWhile_stop {test : CodePoint → Bool} {body : List CodePoint}
    (hbody : ∀ p ∈ body, test p = true) {stop : CodePoint} (hstop : test stop = false)
    (rest : List CodePoint) : (body ++ stop :: rest).takeWhile test = body := by
  rw [List.takeWhile_append_of_pos hbody, List.takeWhile_cons_of_neg (by simp [hstop]),
    List.append_nil]

theorem operand?_closed {text : Text} (h : .char '\x7d' ∉ text.points) (rest : List CodePoint) :
    operand? (text.points ++ .char '\x7d' :: rest) = some text := by
  have hbody : ∀ p ∈ text.points, (p != .char '\x7d') = true := by
    intro p hp
    rw [bne_iff_ne]
    rintro rfl
    exact h hp
  simp only [operand?, takeWhile_stop hbody (bne_self_eq_false _), List.drop_left]
  rfl

theorem fallback?_written {fallback : Fallback} (h : .char '\x7d' ∉ fallback.written.points)
    (rest : List CodePoint) :
    fallback? (fallback.written.points ++ .char '\x7d' :: rest) = some fallback := by
  cases fallback with
  | required => rfl
  | text text =>
      have htext : .char '\x7d' ∉ text.points := fun hp => h (List.mem_append_right _ hp)
      show (operand? (text.points ++ .char '\x7d' :: rest)).map Fallback.text = _
      rw [operand?_closed htext]
      rfl
  | complaint text =>
      have htext : .char '\x7d' ∉ text.points := fun hp => h (List.mem_append_right _ hp)
      show (operand? (text.points ++ .char '\x7d' :: rest)).map Fallback.complaint = _
      rw [operand?_closed htext]
      rfl

theorem exists_stop (fallback : Fallback) (rest : List CodePoint) :
    ∃ stop others, fallback.written.points ++ .char '\x7d' :: rest = stop :: others ∧
      isNamePoint stop = false := by
  cases fallback with
  | required => exact ⟨.char '\x7d', rest, rfl, rfl⟩
  | text text => exact ⟨.char ':', _, rfl, rfl⟩
  | complaint text => exact ⟨.char ':', _, rfl, rfl⟩

theorem read?_written {reference : Reference} (h : reference.IsReadable)
    (rest : List CodePoint) :
    read? (reference.name.points ++
      (reference.fallback.written.points ++ .char '\x7d' :: rest)) = some reference := by
  have hname : (reference.name.points ++
      (reference.fallback.written.points ++ .char '\x7d' :: rest)).takeWhile isNamePoint =
        reference.name.points := by
    rcases exists_stop reference.fallback rest with ⟨stop, others, htail, hstop⟩
    rw [htail, takeWhile_stop h.name hstop]
  have hempty : reference.name.points.isEmpty = false := by simpa using h.named
  simp only [read?, hname, hempty, List.drop_left, fallback?_written h.fallback]
  rfl

theorem points_written (reference : Reference) :
    reference.written.points = .char '$' :: .char '\x7b' ::
      (reference.name.points ++ (reference.fallback.written.points ++ [.char '\x7d'])) := by
  show [.char '$', .char '\x7b'] ++ reference.name.points ++ reference.fallback.written.points ++
    [.char '\x7d'] = _
  simp

theorem settingParts_written {reference : Reference} (h : reference.IsReadable)
    (rest : List CodePoint) :
    settingParts (reference.written.points ++ rest) =
      .reference reference :: settingParts rest := by
  -- `settingParts` goes on behind the opening brace and skips the rest of the reference by length.
  let inner : List CodePoint :=
    reference.name.points ++ (reference.fallback.written.points ++ [.char '\x7d'])
  have hpoints : reference.written.points ++ rest =
      .char '$' :: .char '\x7b' :: (inner ++ rest) := by
    rw [points_written]
    rfl
  have hread : read? (inner ++ rest) = some reference := by
    rw [← read?_written h rest]
    simp [inner]
  have hlength : reference.written.length - 2 = inner.length := by
    rw [Text.length, points_written]
    rfl
  rw [hpoints, settingParts, hread]
  dsimp only
  rw [hlength, List.drop_left]

end Reference

namespace Environment

variable {env : Environment}

theorem resolveParts_points (points : List CodePoint) (parts : List SettingPart) :
    env.resolveParts (points.map .point ++ parts) =
      (env.resolveParts parts).map (points ++ ·) := by
  induction points with
  | nil => cases h : env.resolveParts parts <;> simp [h, Except.map]
  | cons p rest ih =>
      rw [List.map_cons, List.cons_append, resolveParts, ih]
      cases env.resolveParts parts <;> rfl

theorem resolve_literal {text : Text} (h : text.IsLiteral) : env.resolve text = .ok text := by
  have hend : ([] : List CodePoint).head? ≠ some (.char '\x7b') := by simp
  have hparts := settingParts_literal h hend
  rw [List.append_nil, settingParts] at hparts
  rw [resolve, hparts, resolveParts_points]
  simp [resolveParts, Except.map]

theorem resolve_reference {before : Text} (hbefore : before.IsLiteral) {reference : Reference}
    (h : reference.IsReadable) (rest : Text) :
    env.resolve (before ++ (reference.written ++ rest)) = do
      let value ← reference.resolve env
      let others ← env.resolve rest
      return before ++ (value ++ others) := by
  have hparts : settingParts (before ++ (reference.written ++ rest)).points =
      before.points.map .point ++ .reference reference :: settingParts rest.points := by
    show settingParts (before.points ++ (reference.written.points ++ rest.points)) = _
    rw [settingParts_literal hbefore, Reference.settingParts_written h]
    simp [Reference.points_written]
  rw [resolve, hparts, resolveParts_points, resolveParts, resolve]
  cases reference.resolve env with
  | error trouble => rfl
  | ok value => cases env.resolveParts (settingParts rest.points) <;> rfl

end Environment

/-! # Answers -/

def Fallback.text? : Fallback → Option Text
  | text t => some t
  | _ => none

namespace Reference

/-- What the environment has for a reference: the value of the variable, or the text given. -/
def value? (env : Environment) (reference : Reference) : Option Text :=
  (env.get? reference.name).or reference.fallback.text?

/-- Whether a variable can have the name of a reference: only then can it be looked up. -/
def IsWritable (reference : Reference) : Prop :=
  reference.name.bytes?.isSome = true

instance (reference : Reference) : Decidable reference.IsWritable :=
  inferInstanceAs (Decidable (_ = true))

structure IsAnswered (env : Environment) (reference : Reference) : Prop where
  writable : reference.IsWritable
  valued : (reference.value? env).isSome = true

variable {env : Environment} {reference : Reference}

theorem resolve_of_value {value : Text} (hname : reference.IsWritable)
    (h : reference.value? env = some value) : reference.resolve env = .ok value := by
  have hbytes : reference.name.bytes?.isNone = false := by
    rw [← Option.not_isSome, hname]
    rfl
  rcases reference with ⟨name, fallback⟩
  rw [resolve, hbytes]
  cases hset : env.get? name with
  | some found =>
      simp only [value?, hset, Option.some_or, Option.some.injEq] at h
      rw [h]
      rfl
  | none =>
      simp only [value?, hset, Option.none_or] at h
      cases fallback with
      | text text =>
          cases h
          rfl
      | _ => cases h

theorem resolve_of_missing (hname : reference.IsWritable) (h : reference.value? env = none) :
    reference.resolve env = .error (.view (settingsError reference.missingText)) := by
  have hbytes : reference.name.bytes?.isNone = false := by
    rw [← Option.not_isSome, hname]
    rfl
  rcases reference with ⟨name, fallback⟩
  rcases Option.or_eq_none_iff.mp h with ⟨hset, htext⟩
  rw [resolve, hbytes, hset]
  cases fallback with
  | text text => cases htext
  | _ => rfl

theorem resolve_of_unwritable (hname : ¬ reference.IsWritable) :
    reference.resolve env = .error unwritableName := by
  rw [resolve, if_pos (by simpa [IsWritable] using hname)]

theorem missingText_isEmpty (reference : Reference) : reference.missingText.isEmpty = false := by
  unfold missingText
  split
  next text hsaid => simpa using (Option.filter_eq_some_iff.mp hsaid).2
  next => rfl

theorem detail_missing (reference : Reference) :
    (settingsError reference.missingText).detail = some (.text reference.missingText) := by
  have hon : Fact.isOn (.text reference.missingText) = true := by
    show (!reference.missingText.isEmpty) = true
    rw [missingText_isEmpty]
    rfl
  show (Fact.said (some (.text reference.missingText))).or _ = _
  rw [Fact.said, Option.filter_some, hon]
  rfl

end Reference

/-! # Texts with references -/

/-- A reference that is written in a text, and the literal text behind it. -/
structure Mention where
  reference : Reference
  after : Text

namespace Mention

structure IsReadable (mention : Mention) : Prop where
  reference : mention.reference.IsReadable
  after : mention.after.IsLiteral

def row (say : Reference → Text) (first : Text) : List Mention → Text
  | [] => first
  | mention :: rest => first ++ (say mention.reference ++ row say mention.after rest)

def source : Text → List Mention → Text :=
  row Reference.written

def filled (env : Environment) : Text → List Mention → Text :=
  row fun reference => (reference.value? env).getD ""

end Mention

namespace Environment

variable {env : Environment} {first : Text} {mentions : List Mention}

theorem resolve_mention (hfirst : first.IsLiteral) {mention : Mention}
    (hmention : mention.IsReadable) (hanswer : mention.reference.IsAnswered env)
    (rest : List Mention) :
    env.resolve (Mention.source first (mention :: rest)) = do
      let others ← env.resolve (Mention.source mention.after rest)
      return first ++ ((mention.reference.value? env).getD "" ++ others) := by
  rcases Option.isSome_iff_exists.mp hanswer.valued with ⟨value, hvalue⟩
  rw [Mention.source, Mention.row, resolve_reference hfirst hmention.reference,
    Reference.resolve_of_value hanswer.writable hvalue, hvalue]
  rfl

theorem resolve_answered (hfirst : first.IsLiteral) (hmentions : ∀ m ∈ mentions, m.IsReadable)
    (hanswered : ∀ m ∈ mentions, m.reference.IsAnswered env) :
    env.resolve (Mention.source first mentions) = .ok (Mention.filled env first mentions) := by
  induction mentions generalizing first with
  | nil => exact resolve_literal hfirst
  | cons mention rest ih =>
      have hmention := hmentions mention (by simp)
      have hrest := ih hmention.after (fun m hm => hmentions m (by simp [hm]))
        (fun m hm => hanswered m (by simp [hm]))
      rw [resolve_mention hfirst hmention (hanswered mention (by simp)), hrest]
      rfl

theorem resolve_unanswered (hfirst : first.IsLiteral) {before after : List Mention}
    {mention : Mention} (hmentions : ∀ m ∈ before ++ mention :: after, m.IsReadable)
    (hbefore : ∀ m ∈ before, m.reference.IsAnswered env) {trouble : Trouble}
    (htrouble : mention.reference.resolve env = .error trouble) :
    env.resolve (Mention.source first (before ++ mention :: after)) = .error trouble := by
  induction before generalizing first with
  | nil =>
      have hmention := hmentions mention (by simp)
      rw [List.nil_append, Mention.source, Mention.row,
        resolve_reference hfirst hmention.reference, htrouble]
      rfl
  | cons other others ih =>
      rw [List.cons_append] at hmentions ⊢
      have hother := hmentions other (by simp)
      have hrest := ih hother.after (fun m hm => hmentions m (List.mem_cons_of_mem other hm))
        (fun m hm => hbefore m (by simp [hm]))
      rw [resolve_mention hfirst hother (hbefore other (by simp)), hrest]
      rfl

theorem exists_unanswered (env : Environment) (mentions : List Mention) :
    (∀ m ∈ mentions, m.reference.IsAnswered env) ∨
      ∃ before mention after, mentions = before ++ mention :: after ∧
        (∀ m ∈ before, m.reference.IsAnswered env) ∧ ¬ mention.reference.IsAnswered env := by
  induction mentions with
  | nil => exact .inl (by simp)
  | cons mention rest ih =>
      by_cases hanswer : mention.reference.IsAnswered env
      · rcases ih with hall | ⟨before, other, after, rfl, hbefore, hother⟩
        · exact .inl (by simpa using ⟨hanswer, hall⟩)
        · exact .inr ⟨mention :: before, other, after, rfl, by simpa using ⟨hanswer, hbefore⟩,
            hother⟩
      · exact .inr ⟨[], mention, rest, rfl, by simp, hanswer⟩

end Environment

/-! # Values with references -/

namespace Value

mutual

def texts : Value → List Text
  | .str s => [s]
  | .list items => textsOfItems items
  | .map entries => textsOfEntries entries
  | _ => []

def textsOfItems : List Value → List Text
  | [] => []
  | v :: rest => v.texts ++ textsOfItems rest

def textsOfEntries : List (Key × Value) → List Text
  | [] => []
  | (_, v) :: rest => v.texts ++ textsOfEntries rest

end

mutual

def mapTexts (f : Text → Text) : Value → Value
  | .str s => .str (f s)
  | .list items => .list (mapTextsOfItems f items)
  | .map entries => .map (mapTextsOfEntries f entries)
  | v => v

def mapTextsOfItems (f : Text → Text) : List Value → List Value
  | [] => []
  | v :: rest => v.mapTexts f :: mapTextsOfItems f rest

def mapTextsOfEntries (f : Text → Text) : List (Key × Value) → List (Key × Value)
  | [] => []
  | (key, v) :: rest => (key, v.mapTexts f) :: mapTextsOfEntries f rest

end

end Value

namespace Environment

variable {env : Environment}

/-! The references in a value are replaced text by text. -/

section Texts

variable {f : Text → Text}

mutual

theorem resolveValue_ok : (v : Value) → (∀ s ∈ v.texts, env.resolve s = .ok (f s)) →
    env.resolveValue v = .ok (v.mapTexts f)
  | .str s, h => by
      rw [resolveValue, h s (by simp [Value.texts])]
      rfl
  | .list items, h => by
      rw [resolveValue, resolveItems_ok items h]
      rfl
  | .map entries, h => by
      rw [resolveValue, resolveEntries_ok entries h]
      rfl
  | .undefined, _ => rfl
  | .null, _ => rfl
  | .bool _, _ => rfl
  | .int _, _ => rfl
  | .float _, _ => rfl
  | .callable _, _ => rfl
  | .jsonTools, _ => rfl
  | .host _ _ _ _, _ => rfl
  | .shared _, _ => rfl
  | .scope _, _ => rfl

theorem resolveItems_ok : (items : List Value) →
    (∀ s ∈ Value.textsOfItems items, env.resolve s = .ok (f s)) →
    env.resolveItems items = .ok (Value.mapTextsOfItems f items)
  | [], _ => rfl
  | v :: rest, h => by
      have hfirst := resolveValue_ok v fun s hs => h s (List.mem_append_left _ hs)
      have hrest := resolveItems_ok rest fun s hs => h s (List.mem_append_right _ hs)
      rw [resolveItems, hfirst, hrest]
      rfl

theorem resolveEntries_ok : (entries : List (Key × Value)) →
    (∀ s ∈ Value.textsOfEntries entries, env.resolve s = .ok (f s)) →
    env.resolveEntries entries = .ok (Value.mapTextsOfEntries f entries)
  | [], _ => rfl
  | (key, v) :: rest, h => by
      have hfirst := resolveValue_ok v fun s hs => h s (List.mem_append_left _ hs)
      have hrest := resolveEntries_ok rest fun s hs => h s (List.mem_append_right _ hs)
      rw [resolveEntries, hfirst, hrest]
      rfl

end

end Texts

/-- Whether a trouble is what the first text ends in that cannot be resolved. -/
inductive FirstFailure (env : Environment) (trouble : Trouble) : List Text → Prop where
  | here {s : Text} {rest : List Text} :
      env.resolve s = .error trouble → FirstFailure env trouble (s :: rest)
  | later {s value : Text} {rest : List Text} :
      env.resolve s = .ok value → FirstFailure env trouble rest →
      FirstFailure env trouble (s :: rest)

theorem FirstFailure.append_cases {trouble : Trouble} {first rest : List Text}
    (h : FirstFailure env trouble (first ++ rest)) :
    FirstFailure env trouble first ∨
      (∀ s ∈ first, ∃ value, env.resolve s = .ok value) ∧ FirstFailure env trouble rest := by
  induction first with
  | nil => exact .inr ⟨by simp, h⟩
  | cons s others ih =>
      cases h with
      | here hs => exact .inl (.here hs)
      | @later _ value _ hs hothers =>
          rcases ih hothers with hfailure | ⟨hresolved, hrest⟩
          · exact .inl (.later hs hfailure)
          · exact .inr ⟨by simpa using ⟨⟨value, hs⟩, hresolved⟩, hrest⟩

def resolved (env : Environment) (s : Text) : Text :=
  (env.resolve s).toOption.getD s

theorem resolve_resolved {s : Text} (h : ∃ value, env.resolve s = .ok value) :
    env.resolve s = .ok (env.resolved s) := by
  rcases h with ⟨value, hvalue⟩
  rw [resolved, hvalue]
  rfl

section Failures

variable {trouble : Trouble}

mutual

theorem resolveValue_error : (v : Value) → FirstFailure env trouble v.texts →
    env.resolveValue v = .error trouble
  | .str s, h => by
      cases h with
      | here hs =>
          rw [resolveValue, hs]
          rfl
      | later _ hrest => cases hrest
  | .list items, h => by
      rw [resolveValue, resolveItems_error items h]
      rfl
  | .map entries, h => by
      rw [resolveValue, resolveEntries_error entries h]
      rfl

theorem resolveItems_error : (items : List Value) →
    FirstFailure env trouble (Value.textsOfItems items) →
    env.resolveItems items = .error trouble
  | v :: rest, h => by
      rw [resolveItems]
      rcases h.append_cases with hfirst | ⟨hresolved, hrest⟩
      · rw [resolveValue_error v hfirst]
        rfl
      · rw [resolveValue_ok v fun s hs => resolve_resolved (hresolved s hs),
          resolveItems_error rest hrest]
        rfl

theorem resolveEntries_error : (entries : List (Key × Value)) →
    FirstFailure env trouble (Value.textsOfEntries entries) →
    env.resolveEntries entries = .error trouble
  | (key, v) :: rest, h => by
      rw [resolveEntries]
      rcases h.append_cases with hfirst | ⟨hresolved, hrest⟩
      · rw [resolveValue_error v hfirst]
        rfl
      · rw [resolveValue_ok v fun s hs => resolve_resolved (hresolved s hs),
          resolveEntries_error rest hrest]
        rfl

end

end Failures

/-! # Substitution -/

/--
References are replaced in a single pass. In a text of literal text and references, each reference
is replaced by what the environment has for it, and nothing that is put in is gone through again.
The first reference that has no answer ends the whole: with `CONFIG_INVALID` and what is to be said
of it if the variable is not set, with a failure of its own if no variable can have the name. Where
all names can be looked up, the error comes exactly if some reference has no value. In a value, all
of this is done to each text, and to nothing else; the first text that fails ends the whole.
-/
theorem references_replaced (env : Environment) {first : Text} (hfirst : first.IsLiteral)
    {mentions : List Mention} (hmentions : ∀ m ∈ mentions, m.IsReadable) :
    let outcome := env.resolve (Mention.source first mentions)
    ((∀ m ∈ mentions, m.reference.IsAnswered env) →
      outcome = .ok (Mention.filled env first mentions)) ∧
    (∀ before mention after, mentions = before ++ mention :: after →
      (∀ m ∈ before, m.reference.IsAnswered env) →
      (mention.reference.IsWritable → mention.reference.value? env = none →
        ∃ error, outcome = .error (.view error) ∧ error.code = "CONFIG_INVALID" ∧
          error.detail = some (.text mention.reference.missingText)) ∧
      (¬ mention.reference.IsWritable → outcome = .error Reference.unwritableName)) ∧
    ((∀ m ∈ mentions, m.reference.IsWritable) →
      ((∃ error, outcome = .error (.view error) ∧ error.code = "CONFIG_INVALID") ↔
        ∃ m ∈ mentions, m.reference.value? env = none)) ∧
    ∀ v : Value,
      (∀ f : Text → Text, (∀ s ∈ v.texts, env.resolve s = .ok (f s)) →
        env.resolveValue v = .ok (v.mapTexts f)) ∧
      ∀ trouble, env.FirstFailure trouble v.texts → env.resolveValue v = .error trouble := by
  intro outcome
  have hanswered : (∀ m ∈ mentions, m.reference.IsAnswered env) →
      outcome = .ok (Mention.filled env first mentions) :=
    resolve_answered hfirst hmentions
  have hmissing : ∀ before mention after, mentions = before ++ mention :: after →
      (∀ m ∈ before, m.reference.IsAnswered env) → mention.reference.IsWritable →
      mention.reference.value? env = none →
      outcome = .error (.view (settingsError mention.reference.missingText)) := by
    rintro before mention after rfl hbefore hname hvalue
    exact resolve_unanswered hfirst hmentions hbefore (Reference.resolve_of_missing hname hvalue)
  refine ⟨hanswered, ?_, ?_, fun v => ⟨fun f => resolveValue_ok v, fun trouble =>
    resolveValue_error v⟩⟩
  · intro before mention after hsplit hbefore
    constructor
    · intro hname hvalue
      exact ⟨_, hmissing before mention after hsplit hbefore hname hvalue, rfl,
        Reference.detail_missing mention.reference⟩
    · intro hname
      subst hsplit
      exact resolve_unanswered hfirst hmentions hbefore (Reference.resolve_of_unwritable hname)
  · intro hnames
    constructor
    · rintro ⟨error, herror, _⟩
      by_contra hvalues
      have hall : ∀ m ∈ mentions, m.reference.IsAnswered env := by
        intro m hm
        refine ⟨hnames m hm, ?_⟩
        rw [Option.isSome_iff_ne_none]
        exact fun hnone => hvalues ⟨m, hm, hnone⟩
      rw [hanswered hall] at herror
      cases herror
    · rintro ⟨m, hm, hnone⟩
      rcases exists_unanswered env mentions with
        hall | ⟨before, mention, after, hsplit, hbefore, hun⟩
      · have hvalued := (hall m hm).valued
        rw [hnone] at hvalued
        cases hvalued
      · have hname : mention.reference.IsWritable := hnames mention (by simp [hsplit])
        have hvalue : mention.reference.value? env = none := by
          rw [← Option.not_isSome_iff_eq_none]
          exact fun hvalued => hun ⟨hname, hvalued⟩
        exact ⟨_, hmissing before mention after hsplit hbefore hname hvalue, rfl⟩

/-- Values and defaults that look like references stay as they are, and so do signs around them. -/
theorem references_replaced_lookalikes :
    Environment.resolve [("A", "$\x7bB\x7d"), ("B", "")]
        "$$\x7bA\x7d\x7b$\x7bB:-b\x7d:$\x7bC:-$\x7bB\x7d\x7d" =
      .ok "$$\x7bB\x7d\x7b:$\x7bB\x7d" := by
  let env : Environment := [("A", "$\x7bB\x7d"), ("B", "")]
  let mentions : List Mention :=
    [⟨⟨"A", .required⟩, "\x7b"⟩, ⟨⟨"B", .text "b"⟩, ":"⟩, ⟨⟨"C", .text "$\x7bB"⟩, "\x7d"⟩]
  have hmentions : ∀ m ∈ mentions, m.IsReadable := by
    intro m hm
    simp only [mentions, List.mem_cons, List.not_mem_nil, or_false] at hm
    rcases hm with rfl | rfl | rfl
    · exact ⟨⟨by decide, by decide, by decide⟩, by decide⟩
    · exact ⟨⟨by decide, by decide, by decide⟩, by decide⟩
    · exact ⟨⟨by decide, by decide, by decide⟩, by decide⟩
  have hanswered : ∀ m ∈ mentions, m.reference.IsAnswered env := by
    intro m hm
    simp only [mentions, List.mem_cons, List.not_mem_nil, or_false] at hm
    rcases hm with rfl | rfl | rfl
    · exact ⟨by cbv, by cbv⟩
    · exact ⟨by cbv, by cbv⟩
    · exact ⟨by cbv, by cbv⟩
  have hsource : Mention.source "$" mentions =
      "$$\x7bA\x7d\x7b$\x7bB:-b\x7d:$\x7bC:-$\x7bB\x7d\x7d" := by
    decide
  have hfilled : Mention.filled env "$" mentions = "$$\x7bB\x7d\x7b:$\x7bB\x7d" := by
    cbv
  rw [← hsource, ← hfilled]
  exact (@references_replaced env "$" (by decide) mentions hmentions).1 hanswered

/-- A text to fall back on is of no use to a name that no variable can have. -/
theorem resolve_unwritable_name :
    let reference : Reference := ⟨⟨[.surrogate 0]⟩, .text "htm"⟩
    reference.IsReadable ∧ reference.value? [] = some "htm" ∧
      Environment.resolve [] reference.written = .error Reference.unwritableName := by
  intro reference
  have hreadable : reference.IsReadable := ⟨by decide, by decide, by decide⟩
  have hname : ¬ reference.IsWritable := by decide
  have hresolve := @resolve_reference [] "" (by decide) reference hreadable ""
  rw [Reference.resolve_of_unwritable hname] at hresolve
  exact ⟨hreadable, rfl, hresolve⟩

end Environment
end Stencil
