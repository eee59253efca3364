import Stencil.Value.Basic

/-!
# Names among entries

A name is a key that no other key is taken for. What is found under a name after a value has
been put is that value, or what was there before.
-/

namespace Stencil

theorem Key.same_str (key : Key) (name : Text) : key.same (.str name) = (key == .str name) := by
  cases key <;> rfl

theorem Key.str_eq_iff {name other : String} : Key.str name = .str other ↔ name = other :=
  ⟨fun h => Text.ofString_injective (Key.str.inj h), congrArg fun name : String => Key.str name⟩

namespace Entries

variable {α : Type}

theorem get?_cons_str (key : Key) (value : α) (rest : Entries α) (name : Text) :
    get? ((key, value) :: rest) (.str name) =
      if key = .str name then some value else get? rest (.str name) := by
  by_cases h : key = .str name <;> simp [get?, Key.same_str, h]

theorem get?_put_str (entries : Entries α) (key name : Text) (value : α) :
    (entries.put (.str key) value).get? (.str name) =
      if key = name then some value else entries.get? (.str name) := by
  induction entries with
  | nil =>
      rw [put, get?_cons_str]
      simp
  | cons entry rest ih =>
      rcases entry with ⟨k, v⟩
      rw [put, Key.same_str]
      by_cases hkey : k = .str key
      · subst hkey
        simp only [beq_self_eq_true, if_true, get?_cons_str, Key.str.injEq]
        split <;> rfl
      · simp only [beq_iff_eq, hkey, if_false, get?_cons_str, ih]
        by_cases hname : key = name
        · subst hname
          simp [hkey]
        · simp [hname]

theorem merge_concat (entries more : Entries α) (key : Key) (value : α) :
    merge entries (more ++ [(key, value)]) = (merge entries more).put key value := by
  simp [merge]

end Entries
end Stencil
