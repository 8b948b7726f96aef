import Tlibc.Lib.Placement

/-!
# Linked blocks in a table

A table of links in which blocks of consecutive cells are laid one after another:
every cell holds the number of its successor, the last cell of a block a mark,
and a cell behind all blocks 0. `link` is the table, `follow` walks it.

* `link_append`: one more block changes its own cells only
* `link_cases`, `link_last`: what a cell can hold
* `follow_block`: walking from the first cell of a block visits the block
* `Path`: a walk through any table that ends. It visits no cell twice (`Path.nodup`)
  and is the only one from where it starts (`Path.unique`)
-/

namespace Chain

/-- What cell `e` holds when blocks of the given sizes are linked from `base` on. -/
def link (last : Nat) : Nat → List Nat → Nat → Nat
  | _, [], _ => 0
  | base, v :: vs, e =>
    if e < base + v then (if e + 1 = base + v then last else e + 1) else link last (base + v) vs e

variable (last base : Nat)

theorem link_of_end_le {sizes : List Nat} {e : Nat} (h : base + sizes.sum ≤ e) :
    link last base sizes e = 0 := by
  induction sizes generalizing base with
  | nil => rfl
  | cons v vs ih =>
    rw [List.sum_cons] at h
    rw [link, if_neg (by omega), ih (base + v) (by omega)]

/-- One more block behind the others. -/
theorem link_append (sizes : List Nat) (v : Nat) {e : Nat} (hlo : base ≤ e) :
    link last base (sizes ++ [v]) e =
      if e < base + sizes.sum then link last base sizes e
      else if e < base + sizes.sum + v then
        (if e + 1 = base + sizes.sum + v then last else e + 1)
      else 0 := by
  induction sizes generalizing base with
  | nil =>
    rw [List.sum_nil, Nat.add_zero, if_neg (Nat.not_lt.mpr hlo)]
    rfl
  | cons w ws ih =>
    -- a cell of the first block is decided there; the rest is the shorter list
    rw [List.cons_append, link, link, List.sum_cons, ← Nat.add_assoc]
    by_cases he : e < base + w
    · rw [if_pos he, if_pos (show e < base + w + ws.sum by omega), if_pos he]
    · rw [if_neg he, if_neg he, ih (base + w) (Nat.not_lt.mp he)]

/-- The cells of block `i`. -/
theorem link_block {sizes : List Nat} {i e : Nat} (hi : i < sizes.length)
    (hlo : Placement.startOf base sizes i ≤ e) (hhi : e < Placement.startOf base sizes (i + 1)) :
    link last base sizes e =
      if e + 1 = Placement.startOf base sizes (i + 1) then last else e + 1 := by
  induction sizes generalizing base i with
  | nil => exact absurd hi (Nat.not_lt_zero i)
  | cons v vs ih =>
    rw [link]
    cases i with
    | zero =>
      -- the first block: it ends where the second begins
      rw [Placement.startOf_cons_succ, Placement.startOf_zero] at hhi ⊢
      rw [if_pos hhi]
    | succ i =>
      have hbase := Placement.base_le_startOf (base + v) vs i
      rw [Placement.startOf_cons_succ] at hlo hhi
      rw [Placement.startOf_cons_succ, if_neg (by omega)]
      exact ih (base + v) (Nat.lt_of_succ_lt_succ hi) hlo hhi

/-- A cell of a block points to the next cell, which is in a block too, or ends
    its block. -/
theorem link_cases {sizes : List Nat} {e : Nat} (hlo : base ≤ e) (hhi : e < base + sizes.sum) :
    (link last base sizes e = e + 1 ∧ e + 1 < base + sizes.sum) ∨ link last base sizes e = last := by
  rw [← Placement.startOf_length] at hhi ⊢
  -- look at the block that `e` lies in
  obtain ⟨i, hi, h₁, h₂⟩ := Placement.exists_block base sizes hlo hhi
  have hmono := Placement.startOf_mono base sizes (Nat.succ_le_of_lt hi)
  rw [Nat.succ_eq_add_one] at hmono
  rw [link_block last base hi h₁ h₂]
  by_cases he : e + 1 = Placement.startOf base sizes (i + 1)
  · exact .inr (if_pos he)
  · exact .inl ⟨if_neg he, by omega⟩

/-- The last cell of the last block holds the mark. -/
theorem link_last {sizes : List Nat} (hne : sizes ≠ []) (hpos : ∀ v ∈ sizes, 1 ≤ v) :
    link last base sizes (base + sizes.sum - 1) = last := by
  obtain ⟨vs, v, rfl⟩ := (List.eq_nil_or_concat sizes).resolve_left hne
  rw [List.concat_eq_append] at hpos ⊢
  have hv : 1 ≤ v := hpos v (by simp)
  rw [List.sum_append, List.sum_singleton, link_append last base vs v (by omega),
    if_neg (by omega), if_pos (by omega), if_pos (by omega)]

/-! ## Walking -/

/-- The cells visited from `c` on up to the first that holds the mark; `loops`
    when there is none within `fuel` cells. -/
def follow {ε : Type} (next : Nat → Except ε Nat) (loops : ε) : Nat → Nat → Except ε (List Nat)
  | 0, _ => .error loops
  | fuel + 1, c =>
    match next c with
    | .error e => .error e
    | .ok n => if n = last then .ok [c] else (follow next loops fuel n).map (c :: ·)

/-- From the first cell of a block the walk visits the block, cell after cell. -/
theorem follow_block {ε : Type} {next : Nat → Except ε Nat} {loops : ε} {fuel c n : Nat}
    (hn : 1 ≤ n) (hfuel : n ≤ fuel) (hlast : c + n ≤ last)
    (hnext : ∀ e, c ≤ e → e < c + n → next e = .ok (if e + 1 = c + n then last else e + 1)) :
    follow last next loops fuel c = .ok (List.range' c n) := by
  induction n generalizing fuel c with
  | zero => exact absurd hn (Nat.not_succ_le_zero 0)
  | succ n ih =>
    obtain ⟨fuel, rfl⟩ : ∃ k, fuel = k + 1 := ⟨fuel - 1, by omega⟩
    rw [follow, hnext c (Nat.le_refl c) (by omega)]
    by_cases hend : n = 0
    · -- the block's last cell
      subst hend
      simp
    -- the walk goes on from `c + 1`, over a block that is one cell shorter
    · have hne : c + 1 ≠ c + (n + 1) := by omega
      have ih := @ih fuel (c + 1) (by omega) (by omega) (by omega) fun e he he' => by
        rw [hnext e (by omega) (by omega), Nat.add_assoc c 1 n, Nat.add_comm 1 n]
      simp only [if_neg hne, if_neg (show c + 1 ≠ last by omega), ih, Except.map,
        List.range'_succ]

/-! ## Walks that end

In a table of any contents a walk may run into a cell it has visited before, or out
of the table. -/

section

variable {last : Nat} {next : Nat → Nat}

/-- The cells of a walk that ends: each holds the next one, the last holds the mark. -/
inductive Path (last : Nat) (next : Nat → Nat) : Nat → List Nat → Prop where
  | done {c : Nat} (h : next c = last) : Path last next c [c]
  | step {c : Nat} {l : List Nat} (h : next c ≠ last) (tail : Path last next (next c) l) :
    Path last next c (c :: l)

/-- The cells a walk from `c` looks at, whether it ends or not. -/
inductive Visits (last : Nat) (next : Nat → Nat) (c : Nat) : Nat → Prop where
  | start : Visits last next c c
  | step {d : Nat} (hd : Visits last next c d) (h : next d ≠ last) : Visits last next c (next d)

/-- There is one way to walk. -/
theorem Path.unique {c : Nat} {l l' : List Nat} (h : Path last next c l)
    (h' : Path last next c l') : l = l' := by
  induction h generalizing l' with
  | done hc =>
    cases h' with
    | done _ => rfl
    | step hne _ => exact absurd hc hne
  | step hne _ ih =>
    cases h' with
    | done hc => exact absurd hc hne
    | step _ tail => rw [ih tail]

/-- From each of its cells the walk goes on to the same end. -/
theorem Path.of_mem {c d : Nat} {l : List Nat} (h : Path last next c l) (hd : d ∈ l) :
    ∃ k, Path last next d (l.drop k) ∧ l.length = (l.drop k).length + k := by
  induction h with
  | done hc =>
    obtain rfl := List.mem_singleton.mp hd
    exact ⟨0, .done hc, rfl⟩
  | step hne tail ih =>
    rcases List.mem_cons.mp hd with rfl | hd
    · exact ⟨0, .step hne tail, rfl⟩
    · obtain ⟨k, hk, hlen⟩ := ih hd
      exact ⟨k + 1, hk, by rw [List.drop_succ_cons, List.length_cons, hlen]; omega⟩

/-- A walk that comes back to a cell does not end. -/
theorem Path.nodup {c : Nat} {l : List Nat} (h : Path last next c l) : l.Nodup := by
  induction h with
  | done _ => simp
  | @step c l hne tail ih =>
    refine List.nodup_cons.mpr ⟨fun hmem => ?_, ih⟩
    -- the walk from `c` would be longer than itself
    obtain ⟨k, hk, hlen⟩ := tail.of_mem hmem
    have hsame := congrArg List.length (hk.unique (.step hne tail))
    rw [List.length_cons] at hsame
    omega

/-- The cells of a walk are no more than there are numbers for them. -/
theorem Path.length_le {c n : Nat} {l : List Nat} (h : Path last next c l) (hl : ∀ d ∈ l, d < n) :
    l.length ≤ n := by
  have hsub : l ⊆ List.range n := fun d hd => List.mem_range.mpr (hl d hd)
  have hle := h.nodup.length_le_of_subset hsub
  rwa [List.length_range] at hle

theorem Visits.head {c d : Nat} (hc : next c ≠ last) (h : Visits last next (next c) d) :
    Visits last next c d := by
  induction h with
  | start => exact .step .start hc
  | step _ hne ih => exact .step ih hne

/-- A walk that ends looks at its cells only. -/
theorem Path.visits_iff {c d : Nat} {l : List Nat} (h : Path last next c l) :
    Visits last next c d ↔ d ∈ l := by
  constructor
  · intro hv
    induction hv with
    | start => cases h <;> exact List.mem_cons_self
    | @step d hd hne ih =>
      obtain ⟨k, hk, -⟩ := h.of_mem ih
      -- behind `d` the walk has another cell
      cases hpath : l.drop k with
      | nil => rw [hpath] at hk; cases hk
      | cons e l' =>
        rw [hpath] at hk
        cases hk with
        | done hlast => exact absurd hlast hne
        | step _ tail =>
          have hmem : next d ∈ l' := by cases tail <;> exact List.mem_cons_self
          exact List.mem_of_mem_drop (hpath ▸ List.mem_cons_of_mem _ hmem)
  · intro hd
    induction h with
    | done _ =>
      obtain rfl := List.mem_singleton.mp hd
      exact .start
    | step hne tail ih =>
      rcases List.mem_cons.mp hd with rfl | hd
      · exact .start
      · exact .head hne (ih hd)

end

end Chain
