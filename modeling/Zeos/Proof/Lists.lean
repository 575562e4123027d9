import Zeos.ListHead

/-!
# Lists as sequences

What `list.c` is for: heads, each with a sequence of nodes, and nodes on no list. A heap represents this
by disjoint rings.

* `lists_refine`: **each function of `list.c` does to the sequences what its name says**, and writes
  neither the other lists nor the nodes on none.
* `listIsLast_rings`: `list_is_last` tells the last member.
* `calls_refine`: so do calls one after the other, each where it may be made.
-/

namespace Zeos

open LinkHeap

variable {ν : Type*} [DecidableEq ν] {h h' : Heap ν} {A : ν → Prop} {q : ν → List ν} {a x : ν} {xs ys zs : List ν}

/-- **Lists refine sequences.** On any heap of disjoint rings. -/
theorem lists_refine (hR : Rings h A q) :
    (∀ a x, A a → OffRings A q x →
      (∃ h', listAddTail h x a = .ok h' ∧ Rings h' A (Function.update q a (q a ++ [x])) ∧
        ∀ c, c ∉ x :: a :: q a → h' c = h c) ∧
      ∃ h', listAdd h x a = .ok h' ∧ Rings h' A (Function.update q a (x :: q a)) ∧
        ∀ c, c ∉ x :: a :: q a → h' c = h c) ∧
    (∀ a ys x zs, A a → q a = ys ++ x :: zs →
      ∃ h', listDel h x = .ok h' ∧ Rings h' A (Function.update q a (ys ++ zs)) ∧
        OffRings A (Function.update q a (ys ++ zs)) x ∧ ∀ c, c ∉ a :: q a → h' c = h c) ∧
    (∀ x, OffRings A q x → Rings (initListHead h x) (fun a => A a ∨ a = x) (Function.update q x []) ∧
      ∀ c, c ≠ x → initListHead h x c = h c) ∧
    ∀ a, A a → (listEmpty h a = true ↔ q a = []) ∧ ∀ x xs, q a = x :: xs → listFirst h a = .ok x := by
  refine ⟨fun a x ha hx => ⟨?_, ?_⟩, fun a ys x zs ha hq => ?_, fun x hx => ?_, fun a ha => ⟨?_, ?_⟩⟩
  · have hq : q a = q a ++ [] := (List.append_nil _).symm
    have hra : IsRing h a (q a ++ []) := by
      rw [← hq]
      exact hR.ring a ha
    have hxa : x ∉ a :: (q a ++ []) := by
      rw [← hq]
      exact hx a ha
    obtain ⟨h', h1, h2⟩ := listAddTail_inserts hra hxa
    exact ⟨h', h1, hR.insert ha hq hx h2, fun c hc => h2.off (by rwa [← hq])⟩
  · obtain ⟨h', h1, h2⟩ := listAdd_inserts (hR.ring a ha) (hx a ha)
    exact ⟨h', h1, hR.insert ha (List.nil_append _).symm hx h2, fun c hc => h2.off hc⟩
  · obtain ⟨h', h1, h2⟩ := listDel_unlinks (hq ▸ hR.ring a ha)
    exact ⟨h', h1, hR.unlink ha hq h2, hR.unlink_off ha hq, fun c hc => h2.off (by rwa [← hq])⟩
  · exact ⟨initListHead_rings hR hx, fun c hc => initListHead_ne hc⟩
  · exact listEmpty_rings hR ha
  · intro x xs hq
    rw [listFirst_rings hR ha, hq]
    rfl

/-- Two lists, at the nodes 0 and 1: the members 2, 3 and 4 come to the end of the first one, and the one in
the middle is unlinked. -/
theorem lists_refine_two :
    let h := initListHead (initListHead (fun _ => ⟨none, none⟩) 0) 1
    ∃ h₁ h₂ h₃ h₄, listAddTail h 2 0 = .ok h₁ ∧ listAddTail h₁ 3 0 = .ok h₂ ∧ listAddTail h₂ 4 0 = .ok h₃ ∧
      listDel h₃ 3 = .ok h₄ ∧ IsRing h₄ 0 [2, 4] ∧ IsRing h₄ 1 [] ∧ listFirst h₄ 0 = .ok 2 := by
  intro h
  let A : ℕ → Prop := fun a => (False ∨ a = 0) ∨ a = 1
  have hA : ∀ {q : ℕ → List ℕ} {x}, x ∉ 0 :: q 0 → x ∉ 1 :: q 1 → OffRings A q x := by
    rintro q x h₀ h₁ a ((ha | rfl) | rfl)
    · exact ha.elim
    · exact h₀
    · exact h₁
  have h0 : A 0 := .inl (.inr rfl)
  have h1 : A 1 := .inr rfl
  have hempty : OffRings (fun a => False ∨ a = 0) (Function.update (fun _ : ℕ => ([] : List ℕ)) 0 []) 1 := by
    rintro a (ha | rfl)
    · exact ha.elim
    · simp
  have hR := initListHead_rings (initListHead_rings (rings_none (fun _ => ⟨none, none⟩) fun _ => []) (x := 0)
    fun _ ha => ha.elim) hempty
  obtain ⟨h₁, hadd₁, hR₁, -⟩ := ((lists_refine hR).1 0 2 h0 (hA (by simp) (by simp))).1
  obtain ⟨h₂, hadd₂, hR₂, -⟩ := ((lists_refine hR₁).1 0 3 h0 (hA (by simp) (by simp))).1
  obtain ⟨h₃, hadd₃, hR₃, -⟩ := ((lists_refine hR₂).1 0 4 h0 (hA (by simp) (by simp))).1
  obtain ⟨h₄, hdel, hR₄, -⟩ := (lists_refine hR₃).2.1 0 [2] 3 [4] h0 (by simp)
  have hfirst := ((lists_refine hR₄).2.2.2 0 h0).2 2 [4] (by simp)
  refine ⟨h₁, h₂, h₃, h₄, hadd₁, hadd₂, hadd₃, hdel, ?_, ?_, hfirst⟩
  · simpa using hR₄.ring 0 h0
  · simpa using hR₄.ring 1 h1

/-- `list_is_last` of a member. -/
theorem listIsLast_rings (hR : Rings h A q) (ha : A a) (hq : q a = ys ++ x :: zs) :
    listIsLast h x a = true ↔ zs = [] := by
  have hr := hq ▸ hR.ring a ha
  simp only [listIsLast, hr.neighbours.2, Option.some.injEq, decide_eq_true_eq]
  cases zs with
  | nil => exact iff_of_true rfl rfl
  | cons z zs =>
    -- the node behind `x` is a member, and the head is none
    have hz : a ∉ ys ++ x :: z :: zs := (List.nodup_cons.1 hr.nodup).1
    refine iff_of_false (fun he : z = a => ?_) (List.cons_ne_nil z zs)
    rw [← he] at hz
    simp at hz

/-! ### Calls one after the other -/

/-- Heads, with a sequence each. -/
structure Seqs (ν : Type*) where
  Head : ν → Prop
  seq : ν → List ν

/-- `x` is on no list. -/
def Seqs.Free (S : Seqs ν) (x : ν) : Prop := OffRings S.Head S.seq x

inductive ListCall (ν : Type*)
  | init (list : ν)
  | add (new head : ν)
  | addTail (new head : ν)
  | del (entry : ν)
  deriving DecidableEq, Repr

namespace ListCall

variable {S S' : Seqs ν} {c : ListCall ν} {cs : List (ListCall ν)}

def run (h : Heap ν) : ListCall ν → Except Fault (Heap ν)
  | init list => .ok (initListHead h list)
  | add new head => listAdd h new head
  | addTail new head => listAddTail h new head
  | del entry => listDel h entry

/-- Where a call may be made: a new node has to be on no list, an old one on some. -/
def Allowed (S : Seqs ν) : ListCall ν → Prop
  | init list => S.Free list
  | add new head | addTail new head => S.Head head ∧ S.Free new
  | del entry => ∃ a, S.Head a ∧ entry ∈ S.seq a

/-- What a call means. -/
def effect (S : Seqs ν) : ListCall ν → Seqs ν
  | init list => ⟨fun a => S.Head a ∨ a = list, Function.update S.seq list []⟩
  | add new head => { S with seq := Function.update S.seq head (new :: S.seq head) }
  | addTail new head => { S with seq := Function.update S.seq head (S.seq head ++ [new]) }
  | del entry => { S with seq := fun a => (S.seq a).erase entry }

/-- **A call refines its meaning.** -/
theorem refines (hR : Rings h S.Head S.seq) (hc : c.Allowed S) :
    ∃ h', c.run h = .ok h' ∧ Rings h' (c.effect S).Head (c.effect S).seq := by
  cases c with
  | init list => exact ⟨_, rfl, initListHead_rings hR hc⟩
  | add new head =>
    obtain ⟨h', h1, h2⟩ := listAdd_inserts (hR.ring head hc.1) (hc.2 head hc.1)
    exact ⟨h', h1, hR.insert hc.1 (List.nil_append _).symm hc.2 h2⟩
  | addTail new head => exact listAddTail_rings hR hc.1 hc.2
  | del entry =>
    obtain ⟨a, ha, hm⟩ := hc
    obtain ⟨ys, zs, hq⟩ := List.append_of_mem hm
    obtain ⟨h', h1, h2⟩ := listDel_rings hR ha hq
    refine ⟨h', h1, h2.congr_seq fun b hb => ?_⟩
    show (S.seq b).erase entry = _
    by_cases hba : b = a
    · -- the sequence has no node twice
      subst hba
      have hnd := (List.nodup_cons.1 (hR.ring b ha).nodup).2
      rw [hq] at hnd ⊢
      have hys : entry ∉ ys := fun hy => (List.nodup_append.1 hnd).2.2 entry hy entry List.mem_cons_self rfl
      rw [Function.update_self, List.erase_append_right _ hys, List.erase_cons_head]
    · rw [Function.update_of_ne hba, List.erase_of_not_mem]
      exact fun hb' => hba (hR.unique hb ha (List.mem_cons_of_mem _ hb') (List.mem_cons_of_mem _ hm))

/-- Calls one after the other, each allowed where it is made. -/
def AllAllowed : Seqs ν → List (ListCall ν) → Prop
  | _, [] => True
  | S, c :: cs => c.Allowed S ∧ AllAllowed (c.effect S) cs

/-- **Calls in any number** refine what they mean one after the other. -/
theorem calls_refine (hR : Rings h S.Head S.seq) (hc : AllAllowed S cs) :
    ∃ h', cs.foldlM run h = .ok h' ∧ Rings h' (cs.foldl effect S).Head (cs.foldl effect S).seq := by
  induction cs generalizing h S with
  | nil => exact ⟨h, rfl, hR⟩
  | cons c cs ih =>
    obtain ⟨h₁, h1, h2⟩ := refines hR hc.1
    obtain ⟨h', h3, h4⟩ := ih h2 hc.2
    exact ⟨h', by rw [List.foldlM_cons, h1]; exact h3, h4⟩

end ListCall

end Zeos
