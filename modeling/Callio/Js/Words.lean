import Callio.Js.Number

/-! Texts split at a character and put together again. -/

namespace Js

variable {sep : Char}

/-- The characters of a piece are the text's, but for those split at. -/
theorem mem_of_mem_splitOn {s piece : Text} {c : Char} (hpiece : piece ∈ s.splitOn sep) (hc : c ∈ piece) :
    c ≠ sep ∧ c ∈ s := by
  induction s generalizing piece with
  | nil =>
    rw [List.splitOn_nil, List.mem_singleton] at hpiece
    rw [hpiece] at hc
    cases hc
  | cons x s ih =>
    have hmore : ∀ {piece}, piece ∈ s.splitOn sep → c ∈ piece → c ≠ sep ∧ c ∈ x :: s :=
      fun h hc => (ih h hc).imp_right (List.mem_cons_of_mem _)
    rw [List.splitOn_cons_eq_if_modifyHead] at hpiece
    split at hpiece
    · rcases List.mem_cons.mp hpiece with rfl | hpiece
      · cases hc
      · exact hmore hpiece hc
    · rename_i hx
      obtain ⟨first, rest, hsplit⟩ := List.exists_cons_of_ne_nil (List.splitOn_ne_nil sep s)
      rw [hsplit, List.modifyHead_cons] at hpiece
      rcases List.mem_cons.mp hpiece with rfl | hpiece
      · rcases List.mem_cons.mp hc with rfl | hc
        · exact ⟨by simpa using hx, List.mem_cons_self ..⟩
        · exact hmore (hsplit ▸ List.mem_cons_self ..) hc
      · exact hmore (hsplit ▸ List.mem_cons_of_mem _ hpiece) hc

theorem notMem_of_mem_splitOn {s piece : Text} (h : piece ∈ s.splitOn sep) : sep ∉ piece :=
  fun hsep => (mem_of_mem_splitOn h hsep).1 rfl

/-- Put together, pieces have their characters and what stands between them. -/
theorem mem_intercalate {pieces : List Text} {c : Char} (h : c ∈ [sep].intercalate pieces) :
    c = sep ∨ ∃ piece ∈ pieces, c ∈ piece := by
  induction pieces with
  | nil => cases h
  | cons first rest ih =>
    cases rest with
    | nil =>
      rw [List.intercalate_singleton] at h
      exact .inr ⟨first, List.mem_cons_self .., h⟩
    | cons second rest =>
      rw [List.intercalate_cons_cons, List.mem_append, List.mem_append, List.mem_singleton] at h
      rcases h with (h | rfl) | h
      · exact .inr ⟨first, List.mem_cons_self .., h⟩
      · exact .inl rfl
      · exact (ih h).imp_right fun ⟨piece, hpiece, hc⟩ => ⟨piece, List.mem_cons_of_mem _ hpiece, hc⟩

end Js
