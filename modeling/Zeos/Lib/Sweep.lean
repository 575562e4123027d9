import Mathlib.Data.Int.Basic
import Mathlib.Data.List.Basic
import Mathlib.Data.Nat.Notation
import Mathlib.Tactic.Common

/-!
# Sweeps over a grid

Two nested loops visit the cells of a grid, each once, and change the marks on it in place.

* `upTo`, `downTo`: the values of a counter that goes up or down; `cells`: the cells in the order
  visited (`forCells_eq`, `cells_pairwise`, `cells_ahead`).
* `foldl_carries`: **a sweep that moves marks**, never ahead of itself, moves each mark once
  (`foldl_moves`, where what is kept does not depend on the state).
* `foldl_raises`: a sweep that raises a flag where it sees something.
* `foldl_removes`: a sweep that takes away the marks it finds hit.
* `foldl_puts`, `foldl_adds`: a sweep that sets marks.
* `foldl_edits`: **a sweep in place is an update of all cells at once**, if no cell reads what an earlier
  one has written.
-/

namespace GridSweep

/-! ### Counters -/

/-- `for (i = lo; i <= hi; ++i)`. -/
def upTo (lo hi : ℤ) : List ℤ := (List.range (hi + 1 - lo).toNat).map fun n : ℕ => lo + n

/-- `for (i = hi; i >= lo; --i)`. -/
def downTo (hi lo : ℤ) : List ℤ := (List.range (hi + 1 - lo).toNat).map fun n : ℕ => hi - n

variable {lo hi i : ℤ}

@[simp] theorem mem_upTo : i ∈ upTo lo hi ↔ lo ≤ i ∧ i ≤ hi := by
  unfold upTo
  rw [List.mem_map]
  constructor
  · rintro ⟨n, hn, rfl⟩
    have := List.mem_range.1 hn
    omega
  · intro h
    exact ⟨(i - lo).toNat, List.mem_range.2 (by omega), by omega⟩

@[simp] theorem mem_downTo : i ∈ downTo hi lo ↔ lo ≤ i ∧ i ≤ hi := by
  unfold downTo
  rw [List.mem_map]
  constructor
  · rintro ⟨n, hn, rfl⟩
    have := List.mem_range.1 hn
    omega
  · intro h
    exact ⟨(hi - i).toNat, List.mem_range.2 (by omega), by omega⟩

theorem upTo_cons (h : lo ≤ hi) : upTo lo hi = lo :: upTo (lo + 1) hi := by
  obtain ⟨n, hn⟩ : ∃ n, (hi + 1 - lo).toNat = n + 1 := ⟨(hi - lo).toNat, by omega⟩
  have hn' : (hi + 1 - (lo + 1)).toNat = n := by omega
  have hcomp : ((fun n : ℕ => lo + (n : ℤ)) ∘ Nat.succ) = fun n : ℕ => lo + 1 + (n : ℤ) := by
    funext m
    simp only [Function.comp, Nat.succ_eq_add_one]
    omega
  unfold upTo
  rw [hn, hn', List.range_succ_eq_map, List.map_cons, List.map_map, hcomp]
  simp

theorem upTo_pairwise (lo hi : ℤ) : (upTo lo hi).Pairwise (· < ·) := by
  unfold upTo
  rw [List.pairwise_map]
  exact List.pairwise_lt_range.imp fun h => by omega

theorem downTo_pairwise (hi lo : ℤ) : (downTo hi lo).Pairwise (· > ·) := by
  unfold downTo
  rw [List.pairwise_map]
  exact List.pairwise_lt_range.imp fun h => by omega

/-! ### Cells -/

variable {σ : Type*} {rows cols : List ℤ}

def forCells (rows cols : List ℤ) (s : σ) (f : σ → ℤ → ℤ → σ) : σ :=
  rows.foldl (fun s i => cols.foldl (fun s j => f s i j) s) s

def cells (rows cols : List ℤ) : List (ℤ × ℤ) := rows.flatMap fun i => cols.map fun j => (i, j)

theorem forCells_eq (s : σ) (f : σ → ℤ → ℤ → σ) :
    forCells rows cols s f = (cells rows cols).foldl (fun s p => f s p.1 p.2) s := by
  unfold forCells cells
  simp only [List.foldl_flatMap, List.foldl_map]

@[simp] theorem mem_cells {p : ℤ × ℤ} : p ∈ cells rows cols ↔ p.1 ∈ rows ∧ p.2 ∈ cols := by
  obtain ⟨i, j⟩ := p
  simp [cells]

/-- A later cell is in a later row, or further along in the same row. -/
theorem cells_pairwise {R C : ℤ → ℤ → Prop} (hr : rows.Pairwise R) (hc : cols.Pairwise C) :
    (cells rows cols).Pairwise fun p q => R p.1 q.1 ∨ p.1 = q.1 ∧ C p.2 q.2 := by
  unfold cells
  rw [List.pairwise_flatMap]
  constructor
  · intro i _
    rw [List.pairwise_map]
    exact hc.imp fun h => .inr ⟨rfl, h⟩
  · refine hr.imp fun {i i'} h p hp q hq => ?_
    obtain ⟨j, -, rfl⟩ := List.mem_map.1 hp
    obtain ⟨j', -, rfl⟩ := List.mem_map.1 hq
    exact .inl h

/-- No cell is visited twice, and `τ` of a cell is not visited after it. -/
theorem cells_ahead {R C : ℤ → ℤ → Prop} {τ : ℤ × ℤ → ℤ × ℤ} (hr : rows.Pairwise R) (hc : cols.Pairwise C)
    (h : ∀ i j i' j', R i i' ∨ i = i' ∧ C j j' →
      ¬ (i = i' ∧ j = j') ∧ ¬ ((τ (i, j)).1 = i' ∧ (τ (i, j)).2 = j')) :
    (cells rows cols).Pairwise fun p q => p ≠ q ∧ τ p ≠ q := by
  refine (cells_pairwise hr hc).imp fun {p q} hpq => ?_
  obtain ⟨h1, h2⟩ := h p.1 p.2 q.1 q.2 hpq
  exact ⟨fun he => h1 (Prod.ext_iff.1 he), fun he => h2 (Prod.ext_iff.1 he)⟩

/-! ### Marks -/

variable {P : Type*} {f : σ → P → σ} {mark shot kept : σ → P → Prop} {keep : P → Prop} {τ : P → P} {J : σ → Prop}
  {π : List P} {s : σ} {q : P}

theorem foldl_const {β : Type*} {g : σ → β} (h : ∀ s p, g (f s p) = g s) (π : List P) (s : σ) :
    g (π.foldl f s) = g s := by
  induction π generalizing s with
  | nil => rfl
  | cons p π ih => exact (ih (f s p)).trans (h s p)

/-- A round that takes the mark off its cell and, if the state keeps it, puts it on another; for the
cells that it does not touch the state keeps what it kept. -/
structure Carries (f : σ → P → σ) (mark kept : σ → P → Prop) (τ : P → P) : Prop where
  carries : ∀ s p q, mark (f s p) q ↔ mark s p ∧ kept s p ∧ τ p = q ∨ mark s q ∧ q ≠ p
  frame : ∀ s p q, p ≠ q → τ p ≠ q → (kept (f s p) q ↔ kept s q)

/-- **A sweep that moves marks.** No cell is visited twice and no mark lands on a cell yet to come:
the marks afterwards are those kept, moved once, and those off the way. -/
theorem foldl_carries (h : Carries f mark kept τ) (hπ : π.Pairwise fun p q => p ≠ q ∧ τ p ≠ q) :
    mark (π.foldl f s) q ↔ (∃ p ∈ π, mark s p ∧ kept s p ∧ τ p = q) ∨ mark s q ∧ q ∉ π := by
  induction π generalizing s with
  | nil => simp
  | cons p π ih =>
    obtain ⟨hp, hπ⟩ := List.pairwise_cons.1 hπ
    -- the first round does not touch the cells to come
    have hsame : ∀ p' ∈ π, (mark (f s p) p' ∧ kept (f s p) p' ∧ τ p' = q ↔ mark s p' ∧ kept s p' ∧ τ p' = q) := by
      intro p' hp'
      obtain ⟨h1, h2⟩ := hp p' hp'
      rw [h.carries s p p', h.frame s p p' h1 h2]
      refine and_congr_left fun _ => ?_
      exact ⟨fun h => h.elim (fun h => absurd h.2.2 h2) (·.1), fun h => .inr ⟨h, Ne.symm h1⟩⟩
    rw [List.foldl_cons, ih hπ, h.carries s p q]
    constructor
    · rintro (⟨p', hp', hm⟩ | ⟨⟨hm, hk⟩ | ⟨hm, hne⟩, hq⟩)
      · exact .inl ⟨p', List.mem_cons_of_mem _ hp', (hsame p' hp').1 hm⟩
      · exact .inl ⟨p, List.mem_cons_self, hm, hk⟩
      · exact .inr ⟨hm, fun h => (List.mem_cons.1 h).elim hne hq⟩
    · rintro (⟨p', hp', hm⟩ | ⟨hm, hq⟩)
      · rcases List.mem_cons.1 hp' with rfl | hp'
        · exact .inr ⟨.inl hm, fun hq => (hp q hq).2 hm.2.2⟩
        · exact .inl ⟨p', hp', (hsame p' hp').2 hm⟩
      · rw [List.mem_cons, not_or] at hq
        exact .inr ⟨.inr ⟨hm, hq.1⟩, hq.2⟩

/-- A round that takes the mark off its cell and, if it is kept, puts it on another; `J` is what the
rounds leave alone. -/
structure Moves (f : σ → P → σ) (mark : σ → P → Prop) (keep : P → Prop) (τ : P → P) (J : σ → Prop) : Prop where
  keeps : ∀ s p, J s → J (f s p)
  moves : ∀ s p q, J s → (mark (f s p) q ↔ mark s p ∧ keep p ∧ τ p = q ∨ mark s q ∧ q ≠ p)

/-- The round on the states with `J`. -/
def Moves.round (h : Moves f mark keep τ J) (s : {s // J s}) (p : P) : {s // J s} := ⟨f s p, h.keeps s p s.2⟩

theorem Moves.carries (h : Moves f mark keep τ J) : Carries h.round (fun s => mark s) (fun _ => keep) τ :=
  ⟨fun s p q => h.moves s p q s.2, fun _ _ _ _ _ => Iff.rfl⟩

/-- A sweep that moves marks, while `J` holds. -/
theorem foldl_moves (h : Moves f mark keep τ J) (hJ : J s) (hπ : π.Pairwise fun p q => p ≠ q ∧ τ p ≠ q) :
    mark (π.foldl f s) q ↔ (∃ p ∈ π, mark s p ∧ keep p ∧ τ p = q) ∨ mark s q ∧ q ∉ π := by
  have hval : π.foldl f s = (π.foldl h.round ⟨s, hJ⟩).1 :=
    @List.foldl_hom _ _ _ Subtype.val h.round f π ⟨s, hJ⟩ fun _ _ => rfl
  rw [hval]
  exact foldl_carries h.carries hπ

/-- A round that raises the flag if it sees something on its cell. -/
structure Raises (f : σ → P → σ) (flag : σ → Prop) (seen : σ → P → Prop) (τ : P → P) : Prop where
  raises : ∀ s p, flag (f s p) ↔ flag s ∨ seen s p
  frame : ∀ s p q, p ≠ q → τ p ≠ q → (seen (f s p) q ↔ seen s q)

/-- **A sweep that raises a flag where it sees something**: what there is to see was there from the
start. -/
theorem foldl_raises {flag : σ → Prop} {seen : σ → P → Prop} (h : Raises f flag seen τ)
    (hπ : π.Pairwise fun p q => p ≠ q ∧ τ p ≠ q) : flag (π.foldl f s) ↔ flag s ∨ ∃ p ∈ π, seen s p := by
  induction π generalizing s with
  | nil => simp
  | cons p π ih =>
    obtain ⟨hp, hπ⟩ := List.pairwise_cons.1 hπ
    have hsame : (∃ p' ∈ π, seen (f s p) p') ↔ ∃ p' ∈ π, seen s p' :=
      exists_congr fun p' => and_congr_right fun hp' => h.frame s p p' (hp p' hp').1 (hp p' hp').2
    rw [List.foldl_cons, ih hπ, h.raises, hsame, or_assoc, List.exists_mem_cons_iff]

/-- A round that takes the mark off its cell if there is a shot on it, and changes the shots on its
cell and on `τ` of it only. -/
structure Removes (f : σ → P → σ) (mark shot : σ → P → Prop) (τ : P → P) : Prop where
  removes : ∀ s p q, mark (f s p) q ↔ mark s q ∧ ¬ (q = p ∧ shot s p)
  shots : ∀ s p q, p ≠ q → τ p ≠ q → (shot (f s p) q ↔ shot s q)

/-- **A sweep that takes away the marks it finds hit**: a visited cell has its shot from the start. -/
theorem foldl_removes (h : Removes f mark shot τ) (hπ : π.Pairwise fun p q => p ≠ q ∧ τ p ≠ q) :
    mark (π.foldl f s) q ↔ mark s q ∧ ¬ (q ∈ π ∧ shot s q) := by
  induction π generalizing s with
  | nil => simp
  | cons p π ih =>
    obtain ⟨hp, hπ⟩ := List.pairwise_cons.1 hπ
    have hsame : q ∈ π → (shot (f s p) q ↔ shot s q) := fun hq => h.shots s p q (hp q hq).1 (hp q hq).2
    rw [List.foldl_cons, ih hπ, h.removes, and_assoc]
    refine and_congr_right fun _ => ?_
    constructor
    · rintro ⟨h1, h2⟩ ⟨hq, hs⟩
      rcases List.mem_cons.1 hq with rfl | hq
      · exact h1 ⟨rfl, hs⟩
      · exact h2 ⟨hq, (hsame hq).2 hs⟩
    · intro hn
      refine ⟨?_, fun ⟨hq, hs⟩ => hn ⟨List.mem_cons_of_mem _ hq, (hsame hq).1 hs⟩⟩
      rintro ⟨rfl, hs⟩
      exact hn ⟨List.mem_cons_self, hs⟩

/-- **A sweep that sets marks**: a round on `p` sets those that `put p` is about. -/
theorem foldl_puts {put : P → P → Prop} (h : ∀ s p q, mark (f s p) q ↔ mark s q ∨ put p q) :
    mark (π.foldl f s) q ↔ mark s q ∨ ∃ p ∈ π, put p q := by
  induction π generalizing s with
  | nil => simp
  | cons p π ih => rw [List.foldl_cons, ih, h, or_assoc, List.exists_mem_cons_iff]

/-- A round that sets the mark of its cell under a condition. -/
structure Adds (f : σ → P → σ) (mark : σ → P → Prop) (cond : P → Prop) : Prop where
  adds : ∀ s p q, mark (f s p) q ↔ mark s q ∨ q = p ∧ cond p

/-- A sweep that sets the marks of the cells it visits. -/
theorem foldl_adds {cond : P → Prop} (h : Adds f mark cond) :
    mark (π.foldl f s) q ↔ mark s q ∨ q ∈ π ∧ cond q := by
  rw [foldl_puts h.adds]
  refine or_congr_right ⟨?_, fun ⟨hq, hc⟩ => ⟨q, hq, rfl, hc⟩⟩
  rintro ⟨p, hp, rfl, hc⟩
  exact ⟨hp, hc⟩

/-! ### All at once -/

/-- A round that clears the marks of some spots and puts marks on others. What it does is decided by the
spots it reads, which are all that it clears. -/
structure Edits {Q : Type*} (f : σ → P → σ) (on : σ → Q → Prop) (clears puts : σ → P → Q → Prop)
    (reads writes : P → Q → Prop) : Prop where
  edits : ∀ s p q, on (f s p) q ↔ puts s p q ∨ on s q ∧ ¬ clears s p q
  decided : ∀ s s' p, (∀ q, reads p q → (on s q ↔ on s' q)) → clears s p = clears s' p ∧ puts s p = puts s' p
  clears_reads : ∀ s p q, clears s p q → reads p q
  clears_writes : ∀ s p q, clears s p q → writes p q
  puts_writes : ∀ s p q, puts s p q → writes p q

section Edits

variable {Q : Type*} {on : σ → Q → Prop} {clears puts : σ → P → Q → Prop} {reads writes : P → Q → Prop} {p p' : P}
  {z : Q}

/-- A round leaves a spot alone that it does not write. -/
theorem Edits.unwritten (h : Edits f on clears puts reads writes) (hz : ¬ writes p z) : on (f s p) z ↔ on s z := by
  rw [h.edits]
  constructor
  · rintro (hp | hs)
    · exact absurd (h.puts_writes s p z hp) hz
    · exact hs.1
  · intro hs
    exact .inr ⟨hs, fun hc => hz (h.clears_writes s p z hc)⟩

/-- So a later cell finds what it reads as it was. -/
theorem Edits.ahead (h : Edits f on clears puts reads writes) (hp : ∀ z, writes p z → ¬ reads p' z) :
    clears (f s p) p' = clears s p' ∧ puts (f s p) p' = puts s p' :=
  h.decided (f s p) s p' fun z hz => h.unwritten fun hw => hp z hw hz

/-- **A sweep in place is an update of all cells at once**, if no cell reads what an earlier one has
written: what is put is what the rounds put on the state from before, and what stays is what none of
them clears there. -/
theorem foldl_edits (h : Edits f on clears puts reads writes)
    (hπ : π.Pairwise fun p p' => ∀ z, writes p z → ¬ reads p' z) :
    on (π.foldl f s) z ↔ (∃ p ∈ π, puts s p z) ∨ on s z ∧ ∀ p ∈ π, ¬ clears s p z := by
  induction π generalizing s with
  | nil => simp
  | cons p π ih =>
    obtain ⟨hp, hπ⟩ := List.pairwise_cons.1 hπ
    have hputs : (∃ p' ∈ π, puts (f s p) p' z) ↔ ∃ p' ∈ π, puts s p' z :=
      exists_congr fun p' => and_congr_right fun hp' => by rw [(h.ahead (hp p' hp')).2]
    have hclears : (∀ p' ∈ π, ¬ clears (f s p) p' z) ↔ ∀ p' ∈ π, ¬ clears s p' z :=
      forall₂_congr fun p' hp' => by rw [(h.ahead (hp p' hp')).1]
    rw [List.foldl_cons, ih hπ, hputs, hclears, h.edits, List.exists_mem_cons_iff, List.forall_mem_cons]
    -- what the first round puts is not cleared later
    have hstays : puts s p z → ∀ p' ∈ π, ¬ clears s p' z :=
      fun hz p' hp' hc => hp p' hp' z (h.puts_writes s p z hz) (h.clears_reads s p' z hc)
    constructor
    · rintro (hπz | ⟨hz | hz, hc⟩)
      · exact .inl (.inr hπz)
      · exact .inl (.inl hz)
      · exact .inr ⟨hz.1, hz.2, hc⟩
    · rintro ((hz | hπz) | ⟨hz, hc, hc'⟩)
      · exact .inr ⟨.inl hz, hstays hz⟩
      · exact .inl hπz
      · exact .inr ⟨.inr ⟨hz, hc⟩, hc'⟩

end Edits

end GridSweep
