import Tlibc.Lib.Mem

/-!
# Writers that do not read

An operation that overwrites a set of addresses with bytes of its own leaves two
memories equal there whatever they held before, and as different as they were
elsewhere. So whether anything of an old memory is left after a series of such
operations is a question about the sets alone (`Overwrites.eq_iff`).
-/

namespace Mem

/-- `f` writes the same bytes to the addresses of `S` whatever is in memory, and
    nothing else. -/
structure Overwrites (S : Set Nat) (f : Mem → Mem) : Prop where
  same : ∀ m m' a, a ∈ S → f m a = f m' a
  frame : ∀ m, Frame S m (f m)

namespace Overwrites

variable {S T : Set Nat} {f g : Mem → Mem}

/-- Two memories are equal at an address afterwards if it was overwritten or they
    were equal there before. -/
theorem eq_iff (hf : Overwrites S f) (m m' : Mem) (a : Nat) :
    f m a = f m' a ↔ a ∈ S ∨ m a = m' a := by
  by_cases ha : a ∈ S
  · exact iff_of_true (hf.same m m' a ha) (.inl ha)
  · rw [(hf.frame m).apply ha, (hf.frame m').apply ha]
    exact ⟨.inr, fun h => h.resolve_left ha⟩

/-- One operation after another. -/
theorem comp (hg : Overwrites T g) (hf : Overwrites S f) : Overwrites (S ∪ T) (g ∘ f) where
  same m m' a ha := (hg.eq_iff (f m) (f m') a).mpr <| by
    rcases ha with ha | ha
    · exact .inr (hf.same m m' a ha)
    · exact .inl ha
  frame m := ((hf.frame m).mono Set.subset_union_left).trans
    ((hg.frame (f m)).mono Set.subset_union_right)

end Overwrites

theorem overwrites_fill (off n : Nat) (v : UInt8) :
    Overwrites (Set.Ico off (off + n)) fun m => m.fill off n v where
  same m m' a ha := by
    rw [fill_apply_in ha.1 ha.2, fill_apply_in ha.1 ha.2]
  frame m := frame_fill m off n v

theorem overwrites_write (off : Nat) (bs : List UInt8) :
    Overwrites (Set.Ico off (off + bs.length)) fun m => m.write off bs where
  same m m' a ha := by
    have ha : off ≤ a ∧ a < off + bs.length := ha
    simp only [write, if_pos ha]
  frame m := frame_write m off bs

/-- The addresses a list of stores covers. -/
def stored (base : Nat) : List (Nat × List UInt8) → Set Nat
  | [] => ∅
  | s :: ss => Set.Ico (base + s.1) (base + s.1 + s.2.length) ∪ stored base ss

theorem le_of_mem_stored {base a : Nat} {ss : List (Nat × List UInt8)} (h : a ∈ stored base ss) :
    base ≤ a := by
  induction ss with
  | nil => exact h.elim
  | cons s ss ih =>
    rcases h with hin | hin
    · exact Nat.le_trans (Nat.le_add_right _ _) hin.1
    · exact ih hin

theorem overwrites_writeAll (base : Nat) (ss : List (Nat × List UInt8)) :
    Overwrites (stored base ss) fun m => m.writeAll base ss := by
  induction ss with
  | nil => exact ⟨fun _ _ _ ha => ha.elim, fun m => Frame.refl _ m⟩
  | cons s ss ih => exact ih.comp (overwrites_write (base + s.1) s.2)

end Mem
