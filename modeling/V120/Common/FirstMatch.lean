import Mathlib.Data.List.Basic

/-!
# The first match in a list that others edit

A lookup that returns the first accepted element is stable under every edit that leaves the
found element in place: appending, filtering, and deleting some other element. The elements
before the found one are rejected by the lookup, so losing some of them changes nothing.
-/

namespace V120.Common

variable {A : Type*} {l : List A} {accept : A → Bool} {found : A}

/-- A found element stays first when elements are appended. -/
theorem find?_append_of_some (h : l.find? accept = some found) (more : List A) :
    (l ++ more).find? accept = some found := by
  rw [List.find?_append, h, Option.some_or]

/-- A found element stays first under a filter that keeps it. -/
theorem find?_filter_of_some (h : l.find? accept = some found) (keep : A → Bool)
    (hkeep : keep found = true) : (l.filter keep).find? accept = some found := by
  induction l with
  | nil => simp at h
  | cons a rest ih =>
    by_cases ha : accept a = true
    · rw [List.find?_cons_of_pos ha, Option.some.injEq] at h
      subst h
      rw [List.filter_cons_of_pos hkeep, List.find?_cons_of_pos ha]
    · rw [List.find?_cons_of_neg ha] at h
      by_cases hka : keep a = true
      · rw [List.filter_cons_of_pos hka, List.find?_cons_of_neg ha, ih h]
      · rw [List.filter_cons_of_neg hka, ih h]

/-- A found element stays first when a different element is deleted. -/
theorem find?_eraseP_of_some (h : l.find? accept = some found) (drop : A → Bool)
    (hdrop : ∀ dropped, l.find? drop = some dropped → dropped ≠ found) :
    (l.eraseP drop).find? accept = some found := by
  induction l with
  | nil => simp at h
  | cons a rest ih =>
    by_cases hda : drop a = true
    · have hne : a ≠ found := hdrop a (List.find?_cons_of_pos hda)
      rw [List.eraseP_cons_of_pos hda]
      by_cases ha : accept a = true
      · rw [List.find?_cons_of_pos ha, Option.some.injEq] at h
        exact absurd h hne
      · rwa [List.find?_cons_of_neg ha] at h
    · rw [List.eraseP_cons_of_neg hda]
      rw [List.find?_cons_of_neg hda] at hdrop
      by_cases ha : accept a = true
      · rw [List.find?_cons_of_pos ha] at h ⊢
        exact h
      · rw [List.find?_cons_of_neg ha] at h ⊢
        exact ih h hdrop

/-- An accepted element is found when whatever is accepted before it is ruled out by their order. -/
theorem find?_of_pairwise {rel : A → A → Prop} (hmem : found ∈ l) (hfound : accept found = true)
    (hrel : l.Pairwise rel) (hbefore : ∀ a, accept a = true → ¬ rel a found) :
    l.find? accept = some found := by
  induction l with
  | nil => exact absurd hmem List.not_mem_nil
  | cons a rest ih =>
    obtain ⟨hhead, htail⟩ := List.pairwise_cons.mp hrel
    rcases List.mem_cons.mp hmem with rfl | hrest
    · exact List.find?_cons_of_pos hfound
    · rw [List.find?_cons_of_neg fun ha => hbefore a ha (hhead found hrest)]
      exact ih hrest htail

/-- Deleting an element a filter drops anyway does not change the filtered list. -/
theorem filter_eraseP (l : List A) (keep drop : A → Bool)
    (hdrop : ∀ dropped, l.find? drop = some dropped → keep dropped = false) :
    (l.eraseP drop).filter keep = l.filter keep := by
  induction l with
  | nil => rfl
  | cons a rest ih =>
    by_cases hda : drop a = true
    · have hkeep : ¬ keep a = true := by simp [hdrop a (List.find?_cons_of_pos hda)]
      rw [List.eraseP_cons_of_pos hda, List.filter_cons_of_neg hkeep]
    · rw [List.find?_cons_of_neg hda] at hdrop
      rw [List.eraseP_cons_of_neg hda]
      by_cases hka : keep a = true
      · rw [List.filter_cons_of_pos hka, List.filter_cons_of_pos hka, ih hdrop]
      · rw [List.filter_cons_of_neg hka, List.filter_cons_of_neg hka, ih hdrop]

/-- When at most one element satisfies a test, dropping the first that does drops all that do. -/
theorem eraseP_eq_filter {l : List α} {p : α → Bool}
    (h : l.Pairwise fun a b => ¬ (p a = true ∧ p b = true)) : l.eraseP p = l.filter (! p ·) := by
  induction l with
  | nil => rfl
  | cons a l ih =>
    obtain ⟨hhead, htail⟩ := List.pairwise_cons.mp h
    by_cases ha : p a = true
    · rw [List.eraseP_cons_of_pos ha, List.filter_cons_of_neg (by simp [ha])]
      exact (List.filter_eq_self.mpr fun b hb => by simpa [ha] using hhead b hb).symm
    · rw [List.eraseP_cons_of_neg ha, List.filter_cons_of_pos (by simpa using ha), ih htail]

end V120.Common
