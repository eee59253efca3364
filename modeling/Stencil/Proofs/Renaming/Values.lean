import Stencil.Proofs.Sandbox.Comparison

/-!
# Renamed values

Two renders that open the same scopes and give out the same marks at different times number them
differently. A renaming says which number answers to which, and a value is renamed if it differs
from another in nothing but these numbers. All numbers that occur have been given out.

No number can be read off a value. What looks at values finds the same in renamed ones, and what
it takes out of them is renamed.
-/

namespace Stencil

/-- Which scope and which mark of one store answer to those of another. -/
structure Renaming where
  place : Nat → Nat
  mark : Nat → Nat
  place_injective : ∀ p q, place p = place q → p = q
  mark_injective : ∀ m n, mark m = mark n → m = n
  /-- The mark of a value that nobody has kept yet. -/
  mark_zero : mark 0 = 0

structure Extent where
  scopes : Nat
  shared : Nat
  marks : Nat

namespace Extent

structure Within (e f : Extent) : Prop where
  scopes : e.scopes ≤ f.scopes
  shared : e.shared ≤ f.shared
  marks : e.marks ≤ f.marks

theorem Within.refl (e : Extent) : e.Within e :=
  ⟨Nat.le_refl _, Nat.le_refl _, Nat.le_refl _⟩

theorem Within.trans {e f g : Extent} (h : e.Within f) (h' : f.Within g) : e.Within g :=
  ⟨Nat.le_trans h.scopes h'.scopes, Nat.le_trans h.shared h'.shared,
    Nat.le_trans h.marks h'.marks⟩

end Extent

variable {ρ : Renaming} {e f : Extent}

/-! # Numbers -/

namespace Binary64

def rename (ρ : Renaming) : Binary64 → Binary64
  | nan mark => nan (ρ.mark mark)
  | x => x

def Marked (e : Extent) : Binary64 → Prop
  | nan mark => mark = 0 ∨ mark < e.marks
  | _ => True

theorem Marked.mono (h : e.Within f) {x : Binary64} (hx : x.Marked e) : x.Marked f := by
  cases x with
  | nan mark => exact hx.imp id fun hmark => Nat.lt_of_lt_of_le hmark h.marks
  | _ => trivial

theorem rename_inj {x y : Binary64} : x.rename ρ = y.rename ρ ↔ x = y := by
  constructor
  · intro h
    cases x <;> cases y <;> simp only [rename] at h <;> try exact h
    rw [nan.injEq] at h
    rw [ρ.mark_injective _ _ h]
    all_goals cases h
  · intro h
    rw [h]

section Read

variable (ρ : Renaming) (x y : Binary64)

@[simp] theorem isNaN_rename : (x.rename ρ).isNaN = x.isNaN := by
  cases x <;> rfl

@[simp] theorem isZero_rename : (x.rename ρ).isZero = x.isZero := by
  cases x <;> rfl

@[simp] theorem toInt?_rename : (x.rename ρ).toInt? = x.toInt? := by
  cases x <;> rfl

@[simp] theorem viewText_rename : (x.rename ρ).viewText = x.viewText := by
  cases x <;> rfl

@[simp] theorem compareInt?_rename (n : Int) :
    (x.rename ρ).compareInt? n = x.compareInt? n := by
  cases x <;> rfl

@[simp] theorem neg_rename : (x.rename ρ).neg = x.neg := by
  cases x <;> rfl

end Read

/-- Operations on doubles that do not read their marks. -/
structure IgnoresMarks {α : Type} (op : Binary64 → Binary64 → α) : Prop where
  left : ∀ (ρ : Renaming) (x y : Binary64), op (x.rename ρ) y = op x y
  right : ∀ (ρ : Renaming) (x y : Binary64), op x (y.rename ρ) = op x y

theorem IgnoresMarks.map {α β : Type} {op : Binary64 → Binary64 → α} (h : IgnoresMarks op)
    (g : α → β) : IgnoresMarks fun x y => g (op x y) where
  left ρ x y := congrArg g (h.left ρ x y)
  right ρ x y := congrArg g (h.right ρ x y)

theorem ignoresMarks_compare? : IgnoresMarks compare? where
  left ρ x y := by cases x <;> cases y <;> rfl
  right ρ x y := by cases x <;> cases y <;> rfl

theorem ignoresMarks_add : IgnoresMarks add where
  left ρ x y := by cases x <;> cases y <;> rfl
  right ρ x y := by cases x <;> cases y <;> rfl

theorem ignoresMarks_sub : IgnoresMarks sub where
  left ρ x y := ignoresMarks_add.left ρ x y.neg
  right ρ x y := by rw [sub, neg_rename, ← sub]

theorem ignoresMarks_mul : IgnoresMarks mul where
  left ρ x y := by cases x <;> cases y <;> rfl
  right ρ x y := by cases x <;> cases y <;> rfl

theorem ignoresMarks_div : IgnoresMarks div where
  left ρ x y := by cases x <;> cases y <;> rfl
  right ρ x y := by cases x <;> cases y <;> rfl

theorem ignoresMarks_rem? : IgnoresMarks rem? where
  left ρ x y := by cases x <;> cases y <;> rfl
  right ρ x y := by cases x <;> cases y <;> rfl

end Binary64

namespace Number

open Binary64 (IgnoresMarks)

def rename (ρ : Renaming) : Number → Number
  | int n => int n
  | float x => float (x.rename ρ)

section Read

variable (ρ : Renaming) (x y : Number)

@[simp] theorem compare?_rename : (x.rename ρ).compare? (y.rename ρ) = x.compare? y := by
  cases x <;> cases y <;>
    simp [compare?, rename, Binary64.ignoresMarks_compare?.left,
      Binary64.ignoresMarks_compare?.right]

@[simp] theorem equal_rename : (x.rename ρ).equal (y.rename ρ) = x.equal y := by
  simp [equal]

@[simp] theorem negate_rename : (x.rename ρ).negate = (x.negate) := by
  cases x <;> simp [negate, rename]

theorem binary_rename {α : Type} {k : Binary64 → Binary64 → Except ArithmeticError α}
    (hk : IgnoresMarks k) :
    (do k (← (x.rename ρ).toBinary) (← (y.rename ρ).toBinary)) =
      (do k (← x.toBinary) (← y.toBinary)) := by
  have hright : ∀ a, ((y.rename ρ).toBinary >>= k a) = (y.toBinary >>= k a) := by
    intro a
    cases y with
    | int n => rfl
    | float y => exact hk.right ρ a y
  have hleft : ∀ a b, k (a.rename ρ) b = k a b := fun a b => hk.left ρ a b
  cases x with
  | int n =>
      show (do ((y.rename ρ).toBinary >>= k (← (int n).toBinary))) =
        (do (y.toBinary >>= k (← (int n).toBinary)))
      rw [funext hright]
  | float x =>
      show ((y.rename ρ).toBinary >>= k (x.rename ρ)) = (y.toBinary >>= k x)
      rw [hright, funext (hleft x)]

theorem mixed_rename {onInts : Int → Int → Int} {onFloats : Binary64 → Binary64 → Binary64}
    (h : IgnoresMarks onFloats) :
    mixed onInts onFloats (x.rename ρ) (y.rename ρ) = mixed onInts onFloats x y := by
  have hk : IgnoresMarks fun a b =>
      (Except.ok (float (onFloats a b)) : Except ArithmeticError Number) :=
    h.map fun r => Except.ok (float r)
  cases x with
  | float x => exact binary_rename ρ (.float x) y hk
  | int a =>
      cases y with
      | int b => rfl
      | float y => exact binary_rename ρ (.int a) (.float y) hk

theorem divide_rename : (x.rename ρ).divide (y.rename ρ) = x.divide y := by
  have hk : IgnoresMarks fun a b => (if b.isZero then .error .zeroDivisor
      else .ok (float (a.div b)) : Except ArithmeticError Number) := by
    constructor
    · intro ρ a b
      rw [Binary64.ignoresMarks_div.left]
    · intro ρ a b
      rw [Binary64.ignoresMarks_div.right, Binary64.isZero_rename]
  cases x with
  | float x => exact binary_rename ρ (.float x) y hk
  | int a =>
      cases y with
      | int b => rfl
      | float y => exact binary_rename ρ (.int a) (.float y) hk

def isInt : Number → Bool
  | int _ => true
  | float _ => false

def ofRemainder (whole : Bool) : Option Binary64 → Except ArithmeticError Number
  | none => .error .noRemainder
  | some r =>
      match whole, r.truncate? with
      | true, some n => .ok (int n)
      | _, _ => .ok (float r)

theorem remainder_def :
    x.remainder y = (do ofRemainder (x.isInt && y.isInt) ((← x.toBinary).rem? (← y.toBinary))) := by
  unfold remainder
  refine bind_congr fun a => bind_congr fun b => ?_
  cases a.rem? b with
  | none => rfl
  | some r =>
      cases x <;> cases y <;> cases hr : r.truncate? <;> simp [ofRemainder, isInt, hr] <;> rfl

theorem remainder_rename : (x.rename ρ).remainder (y.rename ρ) = x.remainder y := by
  have hint : ∀ z : Number, (z.rename ρ).isInt = z.isInt := by
    intro z
    cases z <;> rfl
  rw [remainder_def, remainder_def, hint, hint]
  exact binary_rename ρ x y (Binary64.ignoresMarks_rem?.map (ofRemainder _))

@[simp] theorem apply_rename (op : ArithmeticOp) :
    (x.rename ρ).apply op (y.rename ρ) = x.apply op y := by
  cases op with
  | add => exact mixed_rename ρ x y Binary64.ignoresMarks_add
  | sub => exact mixed_rename ρ x y Binary64.ignoresMarks_sub
  | mul => exact mixed_rename ρ x y Binary64.ignoresMarks_mul
  | div => exact divide_rename ρ x y
  | rem => exact remainder_rename ρ x y

end Read

end Number

/-! # Keys -/

namespace Key

def rename (ρ : Renaming) : Key → Key
  | float x => float (x.rename ρ)
  | key => key

def Marked (e : Extent) : Key → Prop
  | float x => x.Marked e
  | _ => True

theorem Marked.mono (h : e.Within f) {key : Key} (hkey : key.Marked e) : key.Marked f := by
  cases key with
  | float x => exact Binary64.Marked.mono h hkey
  | _ => trivial

theorem number?_rename (ρ : Renaming) (key : Key) :
    (key.rename ρ).number? = key.number?.map (Number.rename ρ) := by
  cases key <;> rfl

theorem rename_inj {k l : Key} : k.rename ρ = l.rename ρ ↔ k = l := by
  cases k <;> cases l <;> simp [rename, Binary64.rename_inj]

theorem same_rename (ρ : Renaming) (k l : Key) : (k.rename ρ).same (l.rename ρ) = k.same l := by
  have hbeq : (k.rename ρ == l.rename ρ) = (k == l) := by
    rw [Bool.eq_iff_iff, beq_iff_eq, beq_iff_eq, rename_inj]
  unfold same
  rw [number?_rename, number?_rename, hbeq]
  cases k.number? <;> cases l.number? <;> simp

end Key

def Key.Renamed (ρ : Renaming) (e : Extent) (k l : Key) : Prop :=
  k.Marked e ∧ l = k.rename ρ

/-! # Values -/

namespace Value

def isConstant : Value → Bool
  | undefined => true
  | null => true
  | bool _ => true
  | int _ => true
  | str _ => true
  | callable _ => true
  | jsonTools => true
  | _ => false

inductive Renamed (ρ : Renaming) (e : Extent) : Value → Value → Prop where
  | constant {v : Value} : v.isConstant = true → Renamed ρ e v v
  | float {x : Binary64} : x.Marked e → Renamed ρ e (.float x) (.float (x.rename ρ))
  | shared {place : Nat} : place < e.shared → Renamed ρ e (.shared place) (.shared place)
  | scope {place : Nat} : place < e.scopes → Renamed ρ e (.scope place) (.scope (ρ.place place))
  | list {items others : List Value} :
      items.length = others.length →
      (∀ i (h : i < items.length) (k : i < others.length),
        Renamed ρ e (items.get ⟨i, h⟩) (others.get ⟨i, k⟩)) →
      Renamed ρ e (.list items) (.list others)
  | map {entries others : List (Key × Value)} :
      entries.length = others.length →
      (∀ i (h : i < entries.length) (k : i < others.length),
        (entries.get ⟨i, h⟩).1.Marked e ∧
          (others.get ⟨i, k⟩).1 = (entries.get ⟨i, h⟩).1.rename ρ) →
      (∀ i (h : i < entries.length) (k : i < others.length),
        Renamed ρ e (entries.get ⟨i, h⟩).2 (others.get ⟨i, k⟩).2) →
      Renamed ρ e (.map entries) (.map others)
  | host {id : Nat} {type text : String} {attributes others : List (String × Value)} :
      attributes.length = others.length →
      (∀ i (h : i < attributes.length) (k : i < others.length),
        (others.get ⟨i, k⟩).1 = (attributes.get ⟨i, h⟩).1) →
      (∀ i (h : i < attributes.length) (k : i < others.length),
        Renamed ρ e (attributes.get ⟨i, h⟩).2 (others.get ⟨i, k⟩).2) →
      Renamed ρ e (.host id type text attributes) (.host id type text others)

end Value

def Entries.Renamed (ρ : Renaming) (e : Extent) (entries others : Entries Value) : Prop :=
  List.Forall₂ (fun a b => Key.Renamed ρ e a.1 b.1 ∧ Value.Renamed ρ e a.2 b.2) entries others

namespace Value

theorem Renamed.ofItems {items others : List Value} (h : List.Forall₂ (Renamed ρ e) items others) :
    Renamed ρ e (.list items) (.list others) := by
  rcases List.forall₂_iff_get.mp h with ⟨hlength, hget⟩
  exact .list hlength hget

theorem Renamed.ofEntries {entries others : Entries Value}
    (h : Entries.Renamed ρ e entries others) : Renamed ρ e (.map entries) (.map others) := by
  rcases List.forall₂_iff_get.mp h with ⟨hlength, hget⟩
  exact .map hlength (fun i hi hk => (hget i hi hk).1) fun i hi hk => (hget i hi hk).2

theorem Renamed.ofAttributes {id : Nat} {type text : String}
    {attributes others : List (String × Value)}
    (h : List.Forall₂ (fun a b => b.1 = a.1 ∧ Renamed ρ e a.2 b.2) attributes others) :
    Renamed ρ e (.host id type text attributes) (.host id type text others) := by
  rcases List.forall₂_iff_get.mp h with ⟨hlength, hget⟩
  exact .host hlength (fun i hi hk => (hget i hi hk).1) fun i hi hk => (hget i hi hk).2

@[elab_as_elim]
theorem Renamed.induction {motive : Value → Value → Prop}
    (constant : ∀ v : Value, v.isConstant = true → motive v v)
    (float : ∀ x : Binary64, x.Marked e → motive (.float x) (.float (x.rename ρ)))
    (shared : ∀ place < e.shared, motive (.shared place) (.shared place))
    (scope : ∀ place < e.scopes, motive (.scope place) (.scope (ρ.place place)))
    (list : ∀ items others : List Value,
      List.Forall₂ (fun v w => Renamed ρ e v w ∧ motive v w) items others →
      motive (.list items) (.list others))
    (map : ∀ entries others : Entries Value,
      List.Forall₂ (fun a b => Key.Renamed ρ e a.1 b.1 ∧ Renamed ρ e a.2 b.2 ∧ motive a.2 b.2)
        entries others →
      motive (.map entries) (.map others))
    (host : ∀ id type text, ∀ attributes others : List (String × Value),
      List.Forall₂ (fun a b => b.1 = a.1 ∧ Renamed ρ e a.2 b.2 ∧ motive a.2 b.2)
        attributes others →
      motive (.host id type text attributes) (.host id type text others))
    {v w : Value} (h : Renamed ρ e v w) : motive v w := by
  induction h with
  | constant hv => exact constant _ hv
  | float hx => exact float _ hx
  | shared hplace => exact shared _ hplace
  | scope hplace => exact scope _ hplace
  | list hlength hget ih =>
      apply list
      exact List.forall₂_iff_get.mpr ⟨hlength, fun i hi hk => ⟨hget i hi hk, ih i hi hk⟩⟩
  | map hlength hkeys hget ih =>
      apply map
      exact List.forall₂_iff_get.mpr
        ⟨hlength, fun i hi hk => ⟨hkeys i hi hk, hget i hi hk, ih i hi hk⟩⟩
  | host hlength hnames hget ih =>
      apply host
      exact List.forall₂_iff_get.mpr
        ⟨hlength, fun i hi hk => ⟨hnames i hi hk, hget i hi hk, ih i hi hk⟩⟩

theorem Renamed.mono (h : e.Within f) {v w : Value} (hv : Renamed ρ e v w) :
    Renamed ρ f v w := by
  refine Renamed.induction ?constant ?float ?shared ?scope ?list ?map ?host hv
  case constant => exact fun v hv => .constant hv
  case float => exact fun x hx => .float (hx.mono h)
  case shared => exact fun place hplace => .shared (Nat.lt_of_lt_of_le hplace h.shared)
  case scope => exact fun place hplace => .scope (Nat.lt_of_lt_of_le hplace h.scopes)
  case list =>
    intro items others hitems
    exact .ofItems (hitems.imp fun v w hv => hv.2)
  case map =>
    intro entries others hentries
    exact .ofEntries (hentries.imp fun a b hentry =>
      ⟨⟨hentry.1.1.mono h, hentry.1.2⟩, hentry.2.2⟩)
  case host =>
    intro id type text attributes others hattributes
    exact .ofAttributes (hattributes.imp fun a b hattribute => ⟨hattribute.1, hattribute.2.2⟩)

/-! # What can be seen of a value -/

section Seen

variable {v w : Value} (h : Renamed ρ e v w)

include h

theorem Renamed.number?_eq : w.number? = v.number?.map (Number.rename ρ) := by
  cases h with
  | @constant v hv => cases v <;> first | rfl | cases hv
  | _ => rfl

theorem Renamed.key? : Option.Rel (Key.Renamed ρ e) v.key? w.key? := by
  cases h with
  | @constant v hv =>
      cases v with
      | float => cases hv
      | list => exact .none
      | map => exact .none
      | jsonTools => exact .none
      | host => exact .none
      | shared => exact .none
      | scope => exact .none
      | _ => exact .some ⟨trivial, rfl⟩
  | float hx => exact .some ⟨hx, rfl⟩
  | _ => exact .none

theorem Renamed.text?_eq : w.text? = v.text? := by
  cases h <;> rfl

theorem Renamed.isUndefined_eq : w.isUndefined = v.isUndefined := by
  cases h <;> rfl

theorem Renamed.isNullish_eq : w.isNullish = v.isNullish := by
  cases h <;> rfl

theorem Renamed.isBool_eq : w.isBool = v.isBool := by
  cases h <;> rfl

theorem Renamed.isCallable_eq : w.isCallable = v.isCallable := by
  cases h <;> rfl

theorem Renamed.isStr_eq : w.isStr = v.isStr := by
  cases h <;> rfl

theorem Renamed.isText_eq (s : Text) : w.isText s = v.isText s := by
  cases h <;> rfl

theorem Renamed.truthy_eq : w.truthy = v.truthy := by
  cases h with
  | float => simp [truthy]
  | _ => rfl

theorem Renamed.position?_eq : w.position? = v.position? := by
  cases h with
  | float => simp [position?]
  | _ => rfl

theorem Renamed.ofNumber {x : Number} (hx : v.number? = some x) :
    Renamed ρ e (.ofNumber x) (.ofNumber (x.rename ρ)) := by
  cases h with
  | @constant v hv =>
      cases v <;> cases hx <;> first | exact .constant rfl | cases hv
  | float hmarked =>
      cases hx
      exact .float hmarked
  | _ => cases hx

end Seen

theorem Renamed.eq_of_isConstant {v w : Value} (h : Renamed ρ e v w) (hv : v.isConstant = true) :
    w = v := by
  cases h with
  | constant => rfl
  | _ => cases hv

theorem Renamed.exists_items {items : List Value} {w : Value} (h : Renamed ρ e (.list items) w) :
    ∃ others, w = .list others ∧ List.Forall₂ (Renamed ρ e) items others := by
  cases h with
  | constant hv => cases hv
  | list hlength hget => exact ⟨_, rfl, List.forall₂_iff_get.mpr ⟨hlength, hget⟩⟩

theorem Renamed.exists_entries {entries : Entries Value} {w : Value}
    (h : Renamed ρ e (.map entries) w) :
    ∃ others, w = .map others ∧ Entries.Renamed ρ e entries others := by
  cases h with
  | constant hv => cases hv
  | map hlength hkeys hget =>
      have hentries := fun i hi hk => And.intro (hkeys i hi hk) (hget i hi hk)
      exact ⟨_, rfl, List.forall₂_iff_get.mpr ⟨hlength, hentries⟩⟩

end Value

/-! # Identity -/

namespace Value

def mark? : Value → Option Nat
  | float (.nan mark) => some mark
  | _ => none

end Value

def Place.rename (ρ : Renaming) : Place → Place
  | .shared place => .shared place
  | .scope place => .scope (ρ.place place)

def Place.Within (e : Extent) : Place → Prop
  | .shared place => place < e.shared
  | .scope place => place < e.scopes

theorem Place.rename_inj {p q : Place} : p.rename ρ = q.rename ρ ↔ p = q := by
  cases p <;> cases q <;> simp only [Place.rename, Place.scope.injEq, Place.shared.injEq,
    reduceCtorEq]
  exact ⟨ρ.place_injective _ _, congrArg ρ.place⟩

namespace Value

theorem identical_def (v w : Value) :
    v.identical w =
      match v.mark?, w.mark? with
      | some m, some n => m == n
      | _, _ =>
          match v.place?, w.place? with
          | some p, some q => p == q
          | _, _ => false := by
  cases v with
  | float x => cases x <;> cases w <;> first | rfl | (rename_i y; cases y <;> rfl)
  | _ => cases w <;> rfl

theorem Renamed.mark?_eq {v w : Value} (h : Renamed ρ e v w) : w.mark? = v.mark?.map ρ.mark := by
  cases h with
  | @constant v hv => cases v <;> first | rfl | cases hv
  | @float x => cases x <;> rfl
  | _ => rfl

theorem Renamed.place?_eq {v w : Value} (h : Renamed ρ e v w) :
    w.place? = v.place?.map (Place.rename ρ) := by
  cases h with
  | @constant v hv => cases v <;> first | rfl | cases hv
  | _ => rfl

theorem Renamed.identical_eq {v v' w w' : Value} (hv : Renamed ρ e v v')
    (hw : Renamed ρ e w w') : v'.identical w' = v.identical w := by
  have hmarks : ∀ m n, (ρ.mark m == ρ.mark n) = (m == n) := by
    intro m n
    rw [Bool.eq_iff_iff, beq_iff_eq, beq_iff_eq]
    exact ⟨ρ.mark_injective m n, congrArg ρ.mark⟩
  have hplaces : ∀ p q : Place, (p.rename ρ == q.rename ρ) = (p == q) := by
    intro p q
    rw [Bool.eq_iff_iff, beq_iff_eq, beq_iff_eq, Place.rename_inj]
  rw [identical_def, identical_def, hv.mark?_eq, hw.mark?_eq, hv.place?_eq, hw.place?_eq]
  cases v.mark? <;> cases w.mark? <;> cases v.place? <;> cases w.place? <;>
    simp [hmarks, hplaces]

/-- What tells a value without elements from others of its kind, unless it is a number. -/
def emblem? : Value → Option Key
  | undefined => some .undefined
  | null => some .null
  | str s => some (.str s)
  | callable f => some (.callable f)
  | host id _ _ _ => some (.int id)
  | _ => none

theorem plainEqual_def (v w : Value) :
    v.plainEqual w =
      match v.number?, w.number? with
      | some x, some y => x.equal y
      | _, _ => v.emblem?.isSome && v.emblem? == w.emblem? := by
  have hids : ∀ id other : Nat,
      (id == other) = (some (Key.int id) == some (Key.int other)) := by
    intro id other
    rw [Bool.eq_iff_iff, beq_iff_eq, beq_iff_eq, Option.some.injEq, Key.int.injEq, Int.ofNat_inj]
  cases v with
  | host id =>
      cases w with
      | host other => exact hids id other
      | _ => simp [plainEqual, number?, emblem?]
  | _ => cases w <;> simp [plainEqual, number?, emblem?, beq_eq_decide]

theorem Renamed.emblem?_eq {v w : Value} (h : Renamed ρ e v w) : w.emblem? = v.emblem? := by
  cases h <;> rfl

theorem Renamed.plainEqual_eq {v v' w w' : Value} (hv : Renamed ρ e v v')
    (hw : Renamed ρ e w w') : v'.plainEqual w' = v.plainEqual w := by
  rw [plainEqual_def, plainEqual_def, hv.number?_eq, hw.number?_eq, hv.emblem?_eq,
    hw.emblem?_eq]
  cases v.number? <;> cases w.number? <;> simp

end Value
end Stencil
