import Mathlib

/-! # Frames

A frame is a chunk behind a header of one width that says how long the chunk is.  A sequence is a
row of frames with a rest that is empty or broken (`exists_row`): its header is cut off, says that
the chunk is empty, or says more than there is. -/

namespace LogosDelivery.Lib

/-- Headers of one width for lengths up to a limit. -/
structure Framing (β : Type) where
  width : ℕ
  limit : ℕ
  header : ℕ → List β
  size : List β → ℕ
  width_pos : 0 < width
  length_header : ∀ n, (header n).length = width
  size_header : ∀ n, n ≤ limit → size (header n) = n
  size_le : ∀ h, size h ≤ limit
  header_size : ∀ h, h.length = width → header (size h) = h

namespace Framing

variable {β : Type} (F : Framing β)

def frame (chunk : List β) : List β := F.header chunk.length ++ chunk

/-- Frames in a row. -/
def frames (chunks : List (List β)) : List β := chunks.flatMap F.frame

/-- A chunk that a header can announce. -/
def Sized (chunk : List β) : Prop := 1 ≤ chunk.length ∧ chunk.length ≤ F.limit

/-- The header is cut off, zero, or points past the end. -/
def Broken (rest : List β) : Prop :=
  rest ≠ [] ∧ rest.length < F.width ∨
    F.width ≤ rest.length ∧ (F.size (rest.take F.width) = 0 ∨
      rest.length < F.width + F.size (rest.take F.width))

variable {F} {chunk rest : List β} {chunks : List (List β)}

theorem frames_cons : F.frames (chunk :: chunks) = F.frame chunk ++ F.frames chunks :=
  List.flatMap_cons

theorem Broken.ne_nil (h : F.Broken rest) : rest ≠ [] := by
  rcases h with ⟨hne, _⟩ | ⟨hwidth, _⟩
  · exact hne
  · rintro rfl
    exact absurd F.width_pos (by simpa using hwidth)

/-- What stands at the front of a frame. -/
theorem take_width : (F.frame chunk ++ rest).take F.width = F.header chunk.length := by
  rw [frame, List.append_assoc, ← F.length_header chunk.length, List.take_left]

theorem drop_width : (F.frame chunk ++ rest).drop F.width = chunk ++ rest := by
  rw [frame, List.append_assoc, ← F.length_header chunk.length, List.drop_left]

theorem length_frame : (F.frame chunk).length = F.width + chunk.length := by
  rw [frame, List.length_append, F.length_header]

theorem length_le_frames : chunks.length ≤ (F.frames chunks).length := by
  induction chunks with
  | nil => exact Nat.zero_le _
  | cons chunk chunks ih =>
      rw [frames_cons, List.length_append, length_frame, List.length_cons]
      have := F.width_pos
      omega

theorem length_le_of_mem (h : chunk ∈ chunks) : chunk.length ≤ (F.frames chunks).length := by
  obtain ⟨before, after, rfl⟩ := List.append_of_mem h
  rw [frames, List.flatMap_append, List.flatMap_cons, List.length_append, List.length_append,
    length_frame]
  omega

/-- Either the rest is broken or there is a frame in front. -/
theorem broken_or_frame (hne : rest ≠ []) :
    F.Broken rest ∨ ∃ chunk rest', F.Sized chunk ∧ rest = F.frame chunk ++ rest' := by
  rcases Nat.lt_or_ge rest.length F.width with hlen | hlen
  · exact Or.inl (Or.inl ⟨hne, hlen⟩)
  · by_cases hbad : F.size (rest.take F.width) = 0 ∨
        rest.length < F.width + F.size (rest.take F.width)
    · exact Or.inl (Or.inr ⟨hlen, hbad⟩)
    · rw [not_or, not_lt] at hbad
      obtain ⟨hzero, hfits⟩ := hbad
      generalize hsize : F.size (rest.take F.width) = size at hzero hfits
      have hlength : ((rest.drop F.width).take size).length = size := by
        rw [List.length_take, List.length_drop]
        omega
      have hheader : F.header size = rest.take F.width := by
        rw [← hsize]
        exact F.header_size _ (by rw [List.length_take]; omega)
      refine Or.inr ⟨(rest.drop F.width).take size, (rest.drop F.width).drop size, ⟨?_, ?_⟩, ?_⟩
      · rw [hlength]
        omega
      · rw [hlength, ← hsize]
        exact F.size_le _
      · rw [frame, hlength, hheader, List.append_assoc, List.take_append_drop,
          List.take_append_drop]

/-- Every sequence is a row of frames and an empty or broken rest. -/
theorem exists_row (buffer : List β) :
    ∃ chunks rest, (∀ chunk ∈ chunks, F.Sized chunk) ∧ buffer = F.frames chunks ++ rest ∧
      (rest = [] ∨ F.Broken rest) := by
  induction hn : buffer.length using Nat.strong_induction_on generalizing buffer with
  | _ n ih =>
      subst hn
      by_cases hne : buffer = []
      · exact ⟨[], [], by simp, by simp [hne, frames], Or.inl rfl⟩
      · rcases broken_or_frame (F := F) hne with hbroken | ⟨chunk, rest, hsized, rfl⟩
        · exact ⟨[], buffer, by simp, by simp [frames], Or.inr hbroken⟩
        · have hless : rest.length < (F.frame chunk ++ rest).length := by
            rw [List.length_append, length_frame]
            have := F.width_pos
            omega
          obtain ⟨chunks, last, hall, hrest, hlast⟩ := ih rest.length hless rest rfl
          refine ⟨chunk :: chunks, last, ?_, ?_, hlast⟩
          · intro c hc
            rcases List.mem_cons.mp hc with rfl | hc
            · exact hsized
            · exact hall c hc
          · rw [frames_cons, List.append_assoc, ← hrest]

end Framing

end LogosDelivery.Lib
