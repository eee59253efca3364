/-!
# Texts

The texts that views compute with are rows of code points. Most code points are
characters. The others are surrogates: two of them, a high and a low one, stand for one
character in another encoding. An escape can name a surrogate by itself, so a text may
hold surrogates that belong to no character.

What is written by hand, such as views, expressions and names, is a `String`, which holds
characters only. It serves as a text wherever one is wanted.
-/

namespace Stencil

inductive CodePoint where
  | char (c : Char)
  /-- A surrogate, by its distance from the first one. The high ones come before the low ones. -/
  | surrogate (index : Fin 2048)
deriving DecidableEq, Repr

namespace CodePoint

instance : Coe Char CodePoint := ⟨char⟩

def halfCount : Nat := 1024

def firstSurrogate : Nat := 0xD800

def code : CodePoint → Nat
  | char c => c.toNat
  | surrogate index => firstSurrogate + index

/-- The code point of a number; one that is too large gives NUL. -/
def ofCode (code : Nat) : CodePoint :=
  if h : firstSurrogate ≤ code ∧ code < firstSurrogate + 2048 then
    surrogate ⟨code - firstSurrogate, by omega⟩
  else char (Char.ofNat code)

def char? : CodePoint → Option Char
  | char c => some c
  | surrogate _ => none

def isChar (test : Char → Bool) : CodePoint → Bool
  | char c => test c
  | surrogate _ => false

/-- The character that a high and a low surrogate stand for. -/
def paired? : CodePoint → CodePoint → Option Char
  | surrogate high, surrogate low =>
      if high.val < halfCount && halfCount ≤ low.val then
        some (Char.ofNat (0x10000 + high.val * halfCount + (low.val - halfCount)))
      else none
  | _, _ => none

end CodePoint

structure Text where
  points : List CodePoint
deriving DecidableEq, Repr

namespace Text

def ofChars (cs : List Char) : Text := ⟨cs.map .char⟩

def ofString (s : String) : Text := ofChars s.toList

instance : Coe String Text := ⟨ofString⟩

instance : Append Text := ⟨fun s t => ⟨s.points ++ t.points⟩⟩

instance : Inhabited Text := ⟨⟨[]⟩⟩

def length (t : Text) : Nat := t.points.length

def isEmpty (t : Text) : Bool := t.points.isEmpty

def said (t : Option Text) : Option Text := t.filter fun t => !t.isEmpty

def singleton (p : CodePoint) : Text := ⟨[p]⟩

def take (n : Nat) (t : Text) : Text := ⟨t.points.take n⟩

def intercalate (separator : Text) (texts : List Text) : Text :=
  ⟨separator.points.intercalate (texts.map points)⟩

def mapChars (f : Char → List Char) (t : Text) : Text :=
  ⟨t.points.flatMap fun p =>
    match p with
    | .char c => (f c).map .char
    | p => [p]⟩

/-! # Texts and strings -/

def chars? (t : Text) : Option (List Char) :=
  t.points.mapM CodePoint.char?

def string? (t : Text) : Option String :=
  t.chars?.map String.ofList

def replacement : Char := Char.ofNat 0xFFFD

/-- The characters of a text in which every two surrogates that make a pair are one. -/
def joinPairs : List CodePoint → List Char
  | [] => []
  | .char c :: rest => c :: joinPairs rest
  | high :: low :: rest =>
      match high.paired? low with
      | some c => c :: joinPairs rest
      | none => replacement :: joinPairs (low :: rest)
  | [_] => [replacement]

/-- A text as other programs show it: pairs are characters, and other surrogates are replaced. -/
def joined (t : Text) : String :=
  String.ofList (joinPairs t.points)

/-! # Order -/

def comparePoints : List CodePoint → List CodePoint → Ordering
  | [], [] => .eq
  | [], _ :: _ => .lt
  | _ :: _, [] => .gt
  | p :: s, q :: t => (compare p.code q.code).then (comparePoints s t)

def order (s t : Text) : Ordering :=
  comparePoints s.points t.points

/-! # Lengths and characters -/

theorem length_append (s t : Text) : (s ++ t).length = s.length + t.length :=
  List.length_append

theorem append_empty (t : Text) : t ++ ofString "" = t := by
  show (⟨t.points ++ []⟩ : Text) = t
  rw [List.append_nil]

theorem append_assoc (t u v : Text) : t ++ u ++ v = t ++ (u ++ v) := by
  show (⟨t.points ++ u.points ++ v.points⟩ : Text) = ⟨t.points ++ (u.points ++ v.points)⟩
  rw [List.append_assoc]

theorem chars?_ofChars (cs : List Char) : (ofChars cs).chars? = some cs := by
  induction cs with
  | nil => rfl
  | cons c rest ih =>
      simp only [chars?, ofChars, List.map_cons, List.mapM_cons, CodePoint.char?] at ih ⊢
      rw [ih]
      rfl

theorem ofChars_of_chars? {text : Text} {cs : List Char} (h : text.chars? = some cs) :
    text = ofChars cs := by
  rcases text with ⟨points⟩
  induction points generalizing cs with
  | nil =>
      cases h
      rfl
  | cons point rest ih =>
      simp only [chars?, List.mapM_cons, Option.bind_eq_bind, Option.bind_eq_some_iff] at h
      rcases h with ⟨c, hc, tail, htail, h⟩
      cases h
      cases point with
      | surrogate _ => cases hc
      | char _ =>
          cases hc
          have := congrArg points (ih htail)
          simpa [ofChars] using this

theorem string?_ofString (s : String) : (ofString s).string? = some s := by
  simp [string?, ofString, chars?_ofChars]

theorem ofString_injective {s t : String} (h : ofString s = ofString t) : s = t := by
  have hstring := congrArg string? h
  rw [string?_ofString, string?_ofString] at hstring
  exact Option.some.inj hstring

theorem ofString_of_string? {text : Text} {s : String} (h : text.string? = some s) :
    text = ofString s := by
  rcases Option.map_eq_some_iff.mp h with ⟨cs, hcs, rfl⟩
  rw [ofChars_of_chars? hcs, ofString, String.toList_ofList]

end Text
end Stencil
