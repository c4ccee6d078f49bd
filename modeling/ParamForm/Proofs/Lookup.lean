import Mathlib.Data.List.Basic

/-!
# Looking up names

What a list of named entries answers to a name after an entry is put before it (`lookup_cons_eq`),
after the entry of a name is replaced (`lookup_replaced`) and after it is taken out
(`lookup_filter_ne`).
-/

namespace ParamForm

variable {α : Type}

theorem lookup_cons_eq (name : String) (a : α) (entries : List (String × α)) (other : String) :
    ((name, a) :: entries).lookup other
      = if other = name then some a else entries.lookup other := by
  by_cases h : other = name
  · simp [h]
  · have hbeq : (other == name) = false := by simpa using h
    rw [List.lookup_cons, hbeq, if_neg h]

theorem lookup_replaced (entries : List (String × α)) (name : String) (a : α) (other : String) :
    (entries.map fun e => if e.1 == name then (name, a) else e).lookup other
      = if other = name then (entries.lookup other).map fun _ => a else entries.lookup other := by
  induction entries with
  | nil => simp
  | cons e entries ih =>
    obtain ⟨key, found⟩ := e
    rw [List.map_cons, lookup_cons_eq]
    by_cases hkey : key = name
    · subst hkey
      rw [if_pos (beq_self_eq_true key), lookup_cons_eq, ih]
      split_ifs <;> rfl
    · have hbeq : ¬ (key == name) = true := by simpa using hkey
      simp only [if_neg hbeq, lookup_cons_eq]
      rw [ih]
      by_cases hother : other = key
      · subst hother
        simp [hkey]
      · simp only [if_neg hother]

theorem lookup_filter_ne (entries : List (String × α)) {name other : String}
    (h : other ≠ name) : (entries.filter (·.1 ≠ name)).lookup other = entries.lookup other := by
  induction entries with
  | nil => rfl
  | cons e entries ih =>
    obtain ⟨key, a⟩ := e
    by_cases hkey : key = name
    · subst hkey
      rw [List.filter_cons_of_neg (by simp), ih, lookup_cons_eq, if_neg h]
    · rw [List.filter_cons_of_pos (by simpa using hkey), lookup_cons_eq, lookup_cons_eq, ih]

end ParamForm
