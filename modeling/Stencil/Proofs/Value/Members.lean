import Mathlib
import Stencil.Proofs.Number.Shortest
import Stencil.Proofs.Value.Keys
import Stencil.Value.Member

/-!
# What reading a member gives

A member is an entry of a mapping, the length or an element of a list or a text, or an attribute
that views may see. Reading it gives the one there is, and undefined if there is none. It fails
only where the key is a text of signs of digits that is no numeral.
-/

namespace Stencil

/-! # Whole numbers -/

theorem Binary64.toInt?_eq_some_iff {x : Binary64} {n : Int} :
    x.toInt? = some n ↔ (Number.float x).equal (.int n) = true := by
  rw [Number.equal_iff]
  have hone := Binary64.one_pos
  unfold toInt? Number.level?
  -- The unit is a large power of two, which nothing here should work out.
  generalize one = unit at hone ⊢
  cases x with
  | nan mark => simp
  | infinity negative => simp
  | finite negative rank =>
      dsimp only
      generalize units rank = size
      simp only [Option.some.injEq, exists_eq_left', Sum.inr.injEq, beq_iff_eq]
      constructor
      · intro h
        split at h
        · rename_i hwhole
          rcases Nat.dvd_of_mod_eq_zero hwhole with ⟨whole, rfl⟩
          rw [Nat.mul_div_cancel_left _ hone] at h
          cases h
          cases negative <;> simp [mul_comm]
        · cases h
      · intro h
        have hsize : size = n.natAbs * unit := by
          have habs := congrArg Int.natAbs h
          rw [Int.natAbs_mul, Int.natAbs_natCast] at habs
          cases negative <;> simpa using habs
        have hunit : (unit : Int) ≠ 0 := by omega
        rw [hsize] at h ⊢
        rw [if_pos (Nat.mul_mod_left _ _), Nat.mul_div_cancel _ hone, Option.some.injEq]
        refine Int.eq_of_mul_eq_mul_right hunit (Eq.trans ?_ h)
        cases negative <;> simp

namespace Text

/-! # Signs of digits -/

theorem isSome_digitValue? (c : Char) : (digitValue? c).isSome = isDigit c := by
  rw [Bool.eq_iff_iff, digitValue?, Option.isSome_map, List.find?_isSome, isDigit, Ranges.has,
    Ranges.covers, List.any_eq_true]

theorem isSome_mapM_digitValue? (cs : List Char) :
    (cs.mapM digitValue?).isSome = cs.all isDigit := by
  induction cs with
  | nil => rfl
  | cons c rest ih =>
      rw [List.mapM_cons, List.all_cons, ← isSome_digitValue?, ← ih]
      cases digitValue? c <;> cases rest.mapM digitValue? <;> rfl

theorem isSome_numeral? (cs : List Char) :
    (numeral? cs).isSome = (!cs.isEmpty && cs.all isDigit) := by
  rw [numeral?, ← isSome_mapM_digitValue?]
  cases cs.isEmpty <;> simp

structure IsMisread (s : Text) : Prop where
  signs : ∀ p ∈ s.points, p.isChar isDigitSign = true
  lone : ∃ p ∈ s.points, p.isChar isDigit = false

theorem exists_chars {test : Char → Bool} {s : Text}
    (h : ∀ p ∈ s.points, p.isChar test = true) : ∃ cs, s = ofChars cs := by
  rcases s with ⟨points⟩
  induction points with
  | nil => exact ⟨[], rfl⟩
  | cons p rest ih =>
      rcases ih fun q hq => h q (List.mem_cons_of_mem p hq) with ⟨cs, hcs⟩
      cases p with
      | surrogate _ => cases h _ List.mem_cons_self
      | char c =>
          cases hcs
          exact ⟨c :: cs, rfl⟩

end Text

/-! # Positions -/

namespace Value

inductive IsPosition : Value → Nat → Prop
  | int (n : Nat) : IsPosition (.int n) n
  | float {x : Binary64} {n : Nat} (h : (Number.float x).equal (.int n) = true) :
      IsPosition (.float x) n
  | numeral {cs : List Char} {n : Nat} (h : Text.numeral? cs = some n) :
      IsPosition (.str (Text.ofChars cs)) n

theorem position?_of_signs {s : Text} (hne : s.points ≠ [])
    (hsigns : ∀ p ∈ s.points, p.isChar Text.isDigitSign = true) :
    (Value.str s).position? =
      (s.chars?.bind Text.numeral?).elim (.error (.notNumeral s)) fun n => .ok (some n) := by
  have hall : (!s.isEmpty && s.points.all (CodePoint.isChar Text.isDigitSign)) = true := by
    rw [Bool.and_eq_true, List.all_eq_true]
    exact ⟨by simp [Text.isEmpty, hne], hsigns⟩
  rw [position?, hall]
  cases s.chars?.bind Text.numeral? <;> rfl

theorem position?_of_isPosition {key : Value} {n : Nat} (h : key.IsPosition n) :
    key.position? = .ok (some n) := by
  cases h with
  | int => rfl
  | float h => rw [position?, Binary64.toInt?_eq_some_iff.mpr h]
  | @numeral cs _ h =>
      have hdigits : cs ≠ [] ∧ ∀ c ∈ cs, Text.isDigit c = true := by
        have hsome := Text.isSome_numeral? cs
        rw [h] at hsome
        simpa using hsome.symm
      rw [position?_of_signs, Text.chars?_ofChars, Option.bind_some, h]
      · rfl
      · simpa [Text.ofChars] using hdigits.1
      · intro p hp
        rcases List.mem_map.mp hp with ⟨c, hc, rfl⟩
        rw [CodePoint.isChar, Text.isDigitSign, hdigits.2 c hc, Bool.true_or]

theorem position?_of_isMisread {s : Text} (h : s.IsMisread) :
    (Value.str s).position? = .error (.notNumeral s) := by
  rcases h with ⟨hsigns, p, hp, hlone⟩
  rcases Text.exists_chars hsigns with ⟨cs, rfl⟩
  rcases List.mem_map.mp hp with ⟨c, hc, rfl⟩
  have hnone : Text.numeral? cs = none := by
    have hdigits : cs.all Text.isDigit = false :=
      List.all_eq_false.mpr ⟨c, hc, by simpa [CodePoint.isChar] using hlone⟩
    have hsome := Text.isSome_numeral? cs
    rw [hdigits, Bool.and_false] at hsome
    simpa using hsome
  rw [position?_of_signs (List.ne_nil_of_mem hp) hsigns, Text.chars?_ofChars, Option.bind_some,
    hnone]
  rfl

theorem position?_cases (key : Value) :
    (∃ s : Text, key = .str s ∧ s.IsMisread) ∨ (∃ n, key.IsPosition n) ∨
      ∃ p, key.position? = .ok p ∧ ∀ n ∈ p, n < 0 := by
  cases key with
  | int n =>
      rcases lt_or_ge n 0 with hneg | hpos
      · exact .inr (.inr ⟨some n, rfl, by simpa using hneg⟩)
      · lift n to Nat using hpos
        exact .inr (.inl ⟨n, .int n⟩)
  | float x =>
      cases hwhole : x.toInt? with
      | none => exact .inr (.inr ⟨none, by rw [position?, hwhole], by simp⟩)
      | some n =>
          rcases lt_or_ge n 0 with hneg | hpos
          · exact .inr (.inr ⟨some n, by rw [position?, hwhole], by simpa using hneg⟩)
          · lift n to Nat using hpos
            exact .inr (.inl ⟨n, .float (Binary64.toInt?_eq_some_iff.mp hwhole)⟩)
  | str s =>
      cases hall : !s.isEmpty && s.points.all (CodePoint.isChar Text.isDigitSign) with
      | false => exact .inr (.inr ⟨none, by rw [position?, hall], by simp⟩)
      | true =>
          rw [Bool.and_eq_true, List.all_eq_true] at hall
          rcases Text.exists_chars hall.2 with ⟨cs, rfl⟩
          cases hnumeral : Text.numeral? cs with
          | some n => exact .inr (.inl ⟨n, .numeral hnumeral⟩)
          | none =>
              have hdigits := Text.isSome_numeral? cs
              have hne : cs.isEmpty = false := by
                simpa [Text.isEmpty, Text.ofChars] using hall.1
              rw [hnumeral, hne, Option.isSome_none, Bool.not_false, Bool.true_and, eq_comm,
                List.all_eq_false] at hdigits
              rcases hdigits with ⟨c, hc, hlone⟩
              refine .inl ⟨_, rfl, hall.2, .char c, List.mem_map_of_mem hc, ?_⟩
              simpa [CodePoint.isChar] using hlone
  | _ => exact .inr (.inr ⟨none, rfl, by simp⟩)

end Value

/-! # Elements -/

inductive IsElement (elements : List Value) : Value → Value → Prop
  | length : IsElement elements (.str "length") (.int elements.length)
  | position {key v : Value} {n : Nat} (hposition : key.IsPosition n)
      (hthere : elements[n]? = some v) : IsElement elements key v

section Elements

variable {elements : List Value} {key : Value}

theorem elementAt_natCast (elements : List Value) (n : Nat) :
    elementAt elements n = elements[n]?.getD .undefined := by
  rw [elementAt, if_neg (by omega), Int.toNat_natCast, List.getD_eq_getElem?_getD]

theorem isText_iff {s : Text} : key.isText s = true ↔ key = .str s := by
  cases key with
  | str t => simpa [Value.isText] using eq_comm
  | _ => simp [Value.isText]

theorem isText_length_of_position? (h : key.position? ≠ .ok none) :
    key.isText "length" = false := by
  rw [Bool.eq_false_iff, Ne, isText_iff]
  rintro rfl
  exact h rfl

theorem elementMember_of_isPosition {n : Nat} (h : key.IsPosition n) :
    elementMember elements key = .ok (elements[n]?.getD .undefined) := by
  have hread := Value.position?_of_isPosition h
  have hword : key.isText "length" = false := isText_length_of_position? (by simp [hread])
  rw [elementMember, hword, hread, ← elementAt_natCast]
  rfl

theorem elementMember_of_isElement {v : Value} (h : IsElement elements key v) :
    elementMember elements key = .ok v := by
  cases h with
  | length => rfl
  | position hposition hthere =>
      rw [elementMember_of_isPosition hposition, hthere, Option.getD_some]

theorem elementMember_of_isMisread {s : Text} (h : s.IsMisread) :
    elementMember elements (.str s) = .error (.notNumeral s) := by
  have hread := Value.position?_of_isMisread h
  have hword : (Value.str s).isText "length" = false :=
    isText_length_of_position? (by simp [hread])
  rw [elementMember, hword, hread]
  rfl

theorem elementMember_cases (elements : List Value) (key : Value) :
    (∃ s : Text, key = .str s ∧ s.IsMisread) ∨ (∃ v, IsElement elements key v) ∨
      elementMember elements key = .ok .undefined := by
  by_cases hword : key.isText "length" = true
  · rw [isText_iff] at hword
    subst hword
    exact .inr (.inl ⟨_, .length⟩)
  rcases key.position?_cases with hmisread | ⟨n, hposition⟩ | ⟨p, hread, hoff⟩
  · exact .inl hmisread
  · cases hthere : elements[n]? with
    | some v => exact .inr (.inl ⟨v, .position hposition hthere⟩)
    | none =>
        exact .inr (.inr (by rw [elementMember_of_isPosition hposition, hthere, Option.getD_none]))
  · refine .inr (.inr ?_)
    rw [elementMember, if_neg hword, hread]
    cases p with
    | none => rfl
    | some n =>
        dsimp only
        rw [elementAt, if_pos (hoff n rfl)]

end Elements

/-! # Members -/

/-- The attributes that a value brings along, hidden ones included. -/
def Value.attributes? : Value → Option (List (String × Value))
  | .host _ _ _ attributes => some attributes
  | .callable f => some (callableAttributes f)
  | _ => none

namespace Store

def elements? (σ : Store) : Value → Option (List Value)
  | .str s => some (pointValues s)
  | v => σ.items? v

inductive HasMember (σ : Store) (target : Value) : Value → Value → Prop
  | entry {entries : Entries Value} {key v : Value} {k : Key}
      (hentries : σ.entries? target = some entries) (hkey : key.key? = some k)
      (hfound : entries.get? k = some v) : HasMember σ target key v
  | element {elements : List Value} {key v : Value} (helements : σ.elements? target = some elements)
      (hthere : IsElement elements key v) : HasMember σ target key v
  | property {attributes : List (String × Value)} {name : Text} {label : String} {v : Value}
      (hattributes : target.attributes? = some attributes)
      (hpublic : name.points.head? ≠ some (.char '_'))
      (hfound : attributes.find? (fun entry => name == Text.ofString entry.1) = some (label, v))
      (hcallable : v.isCallable = false) : HasMember σ target (.str name) v

structure Misreads (σ : Store) (target key : Value) (s : Text) : Prop where
  elements : (σ.elements? target).isSome = true
  key_eq : key = .str s
  isMisread : s.IsMisread

section Members

variable {σ : Store} {target : Value}

theorem member_of_entries {entries : Entries Value} (h : σ.entries? target = some entries)
    (key : Value) :
    σ.member target key = .ok ((key.key?.bind entries.get?).getD .undefined) := by
  rw [entries?] at h
  cases hshape : σ.shape target with
  | map found =>
      rw [hshape] at h
      cases h
      unfold member
      rw [hshape]
      cases key.key? <;> rfl
  | list => simp [hshape] at h
  | plain => simp [hshape] at h

theorem member_of_elements {elements : List Value} (h : σ.elements? target = some elements)
    (key : Value) : σ.member target key = elementMember elements key := by
  have hitems : σ.items? target = some elements →
      σ.member target key = elementMember elements key := by
    intro hitems
    rw [items?] at hitems
    cases hshape : σ.shape target with
    | list found =>
        rw [hshape] at hitems
        cases hitems
        unfold member
        rw [hshape]
    | map => simp [hshape] at hitems
    | plain => simp [hshape] at hitems
  cases target with
  | str s =>
      cases h
      rfl
  | _ => exact hitems h

theorem member_of_attributes {attributes : List (String × Value)}
    (h : target.attributes? = some attributes) (key : Value) :
    σ.member target key = .ok (key.text?.elim .undefined (visibleAttribute attributes)) := by
  cases target with
  | host =>
      cases h
      cases key <;> rfl
  | callable f =>
      cases h
      cases key <;> rfl
  | _ => cases h

theorem member_of_none (hentries : σ.entries? target = none) (helements : σ.elements? target = none)
    (hattributes : target.attributes? = none) (key : Value) :
    σ.member target key = .ok .undefined := by
  cases hshape : σ.shape target with
  | map => simp [entries?, hshape] at hentries
  | list =>
      have hitems : (σ.items? target).isSome = true := by
        rw [items?, hshape]
        rfl
      cases target with
      | str => cases helements
      | _ => cases (congrArg Option.isSome helements).symm.trans hitems
  | plain =>
      unfold member
      rw [hshape]
      cases target with
      | str => cases helements
      | host => cases hattributes
      | callable => cases hattributes
      | _ => rfl

theorem visibleAttribute_cases (attributes : List (String × Value)) (name : Text) :
    visibleAttribute attributes name = .undefined ∨
      ∃ label v, visibleAttribute attributes name = v ∧
        name.points.head? ≠ some (.char '_') ∧
        attributes.find? (fun entry => name == Text.ofString entry.1) = some (label, v) ∧
        v.isCallable = false := by
  unfold visibleAttribute
  split
  · exact .inl rfl
  · rename_i hpublic
    cases hfound : attributes.find? fun entry => name == Text.ofString entry.1 with
    | none => exact .inl rfl
    | some entry =>
        cases hcallable : entry.2.isCallable with
        | true => exact .inl (by simp [hcallable])
        | false =>
            exact .inr ⟨entry.1, entry.2, by simp [hcallable], by simpa using hpublic, rfl,
              hcallable⟩

theorem HasMember.member_eq {key v : Value} (h : σ.HasMember target key v) :
    σ.member target key = .ok v := by
  cases h with
  | entry hentries hkey hfound =>
      rw [member_of_entries hentries, hkey, Option.bind_some, hfound]
      rfl
  | element helements hthere =>
      rw [member_of_elements helements, elementMember_of_isElement hthere]
  | @property _ name _ _ hattributes hpublic hfound hcallable =>
      have hhidden : (name.points.head? == some (.char '_')) = false := by
        simpa using hpublic
      rw [member_of_attributes hattributes]
      simp [Value.text?, visibleAttribute, hhidden, hfound, hcallable]

theorem Misreads.member_eq {key : Value} {s : Text} (h : σ.Misreads target key s) :
    σ.member target key = .error (.notNumeral s) := by
  rcases Option.isSome_iff_exists.mp h.elements with ⟨elements, helements⟩
  rw [member_of_elements helements, h.key_eq, elementMember_of_isMisread h.isMisread]

variable (σ target) in
theorem member_cases (key : Value) :
    (∃ s, σ.Misreads target key s) ∨ (∃ v, σ.HasMember target key v) ∨
      σ.member target key = .ok .undefined := by
  cases hentries : σ.entries? target with
  | some entries =>
      cases hfound : key.key?.bind entries.get? with
      | some v =>
          rcases Option.bind_eq_some_iff.mp hfound with ⟨k, hkey, hget⟩
          exact .inr (.inl ⟨v, .entry hentries hkey hget⟩)
      | none =>
          refine .inr (.inr ?_)
          rw [member_of_entries hentries, hfound]
          rfl
  | none =>
      cases helements : σ.elements? target with
      | some elements =>
          rcases elementMember_cases elements key with ⟨s, rfl, hmisread⟩ | ⟨v, hv⟩ | hnone
          · exact .inl ⟨s, by rw [helements]; rfl, rfl, hmisread⟩
          · exact .inr (.inl ⟨v, .element helements hv⟩)
          · exact .inr (.inr (by rw [member_of_elements helements, hnone]))
      | none =>
          cases hattributes : target.attributes? with
          | none => exact .inr (.inr (member_of_none hentries helements hattributes key))
          | some attributes =>
              have hread := member_of_attributes (σ := σ) hattributes key
              cases key with
              | str name =>
                  rcases visibleAttribute_cases attributes name with
                    hnone | ⟨label, v, -, hpublic, hfound, hcallable⟩
                  · exact .inr (.inr (hread.trans (congrArg Except.ok hnone)))
                  · exact .inr (.inl ⟨v, .property hattributes hpublic hfound hcallable⟩)
              | _ => exact .inr (.inr hread)

/--
What is read is the member that is there, or undefined if there is none. It fails exactly if a
text of signs of digits that is no numeral is taken for a position.
-/
theorem member_iff (σ : Store) (target key : Value) :
    (∀ v, σ.member target key = .ok v ↔
      σ.HasMember target key v ∨
        v = .undefined ∧ (∀ w, ¬ σ.HasMember target key w) ∧ ∀ s, ¬ σ.Misreads target key s) ∧
    ∀ e, σ.member target key = .error e ↔ ∃ s, σ.Misreads target key s ∧ e = .notNumeral s := by
  constructor
  · intro v
    constructor
    · intro h
      rcases member_cases σ target key with ⟨s, hs⟩ | ⟨w, hw⟩ | hnone
      · cases h.symm.trans hs.member_eq
      · cases h.symm.trans hw.member_eq
        exact .inl hw
      · cases h.symm.trans hnone
        by_cases hthere : ∃ w, σ.HasMember target key w
        · rcases hthere with ⟨w, hw⟩
          cases h.symm.trans hw.member_eq
          exact .inl hw
        · refine .inr ⟨rfl, fun w hw => hthere ⟨w, hw⟩, fun s hs => ?_⟩
          cases h.symm.trans hs.member_eq
    · rintro (hw | ⟨rfl, hnone, hread⟩)
      · exact hw.member_eq
      · rcases member_cases σ target key with ⟨s, hs⟩ | ⟨w, hw⟩ | h
        · exact absurd hs (hread s)
        · exact absurd hw (hnone w)
        · exact h
  · intro e
    constructor
    · intro h
      rcases member_cases σ target key with ⟨s, hs⟩ | ⟨w, hw⟩ | hnone
      · cases h.symm.trans hs.member_eq
        exact ⟨s, hs, rfl⟩
      · cases h.symm.trans hw.member_eq
      · cases h.symm.trans hnone
    · rintro ⟨s, hs, rfl⟩
      exact hs.member_eq

/-- A superscript is a sign of a digit and no digit, so that it is no position of a list. -/
theorem superscript_misread :
    let target : Value := .list [.int 1]
    let key : Value := .str "²"
    let σ := Store.ofData [] []
    σ.member target key = .error (.notNumeral "²") ∧ ∀ v, σ.member target key ≠ .ok v := by
  intro target key σ
  have hmisread : σ.Misreads target key "²" := ⟨rfl, rfl, by decide, by decide⟩
  have hread := hmisread.member_eq
  exact ⟨hread, by simp [hread]⟩

end Members

end Store
end Stencil
