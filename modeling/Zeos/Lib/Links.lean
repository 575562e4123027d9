import Mathlib.Data.List.Nodup
import Mathlib.Data.Nat.Notation
import Mathlib.Logic.Function.Basic
import Mathlib.Tactic.Common

/-!
# Circular doubly linked rings in a pointer heap

A heap gives every node its two pointers, `next` and `prev`. A **ring** of head
`hd` and members `xs` (`IsRing`) is a circular doubly linked list through `hd`
and then `xs`; a family of pairwise disjoint rings is `Rings`.

* `IsRing.insert`: writing a fresh node between two neighbours of a ring puts it
  into the sequence there.
* `IsRing.unlink`: linking the neighbours of a member past it takes it out.
* `Rings.insert`, `Rings.unlink`, `Rings.single`: the same in a family, the other
  rings unchanged.
* `walk_eq`: following `next` from the head reads the members back.
-/

namespace LinkHeap

variable {ν : Type*}

/-- The two pointers of a node; `none` is the null pointer. -/
structure Link (ν : Type*) where
  next : Option ν
  prev : Option ν
  deriving DecidableEq, Repr

abbrev Heap (ν : Type*) := ν → Link ν

/-- `h` links `a` through `xs` to `b`, in both directions. -/
def Seg (h : Heap ν) : ν → List ν → ν → Prop
  | a, [], b => (h a).next = some b ∧ (h b).prev = some a
  | a, x :: xs, b => (h a).next = some x ∧ (h x).prev = some a ∧ Seg h x xs b

/-- A ring of head `hd` and members `xs`, in order. -/
structure IsRing (h : Heap ν) (hd : ν) (xs : List ν) : Prop where
  nodup : (hd :: xs).Nodup
  seg : Seg h hd xs hd

/-- The last node of `a :: xs`. -/
def lastOf (a : ν) : List ν → ν
  | [] => a
  | x :: xs => lastOf x xs

/-- The first node of `xs ++ [b]`. -/
def firstOf (b : ν) : List ν → ν
  | [] => b
  | x :: _ => x

theorem lastOf_mem (a : ν) (xs : List ν) : lastOf a xs ∈ a :: xs := by
  induction xs generalizing a with
  | nil => simp [lastOf]
  | cons x xs ih => exact List.mem_cons_of_mem _ (ih x)

theorem firstOf_mem (b : ν) (xs : List ν) : firstOf b xs ∈ xs ++ [b] := by
  cases xs <;> simp [firstOf]

theorem Seg.next_eq {h : Heap ν} {a b : ν} {xs : List ν} (hs : Seg h a xs b) :
    (h a).next = some (firstOf b xs) := by
  cases xs with
  | nil => exact hs.1
  | cons x xs => exact hs.1

theorem Seg.prev_eq {h : Heap ν} {a b : ν} {xs : List ν} (hs : Seg h a xs b) :
    (h b).prev = some (lastOf a xs) := by
  induction xs generalizing a with
  | nil => exact hs.2
  | cons x xs ih => exact ih hs.2.2

theorem seg_append {h : Heap ν} {y b : ν} {xs ys : List ν} :
    ∀ {a}, Seg h a (xs ++ y :: ys) b ↔ Seg h a xs y ∧ Seg h y ys b := by
  induction xs with
  | nil => intro a; simp [Seg, and_assoc]
  | cons x xs ih => intro a; simp [Seg, ih, and_assoc]

/-- A segment reads `next` of its nodes but the last, and `prev` of all but the first. -/
theorem Seg.congr {h h' : Heap ν} {b : ν} {xs : List ν} :
    ∀ {a}, Seg h a xs b → (∀ c ∈ a :: xs, (h' c).next = (h c).next) →
      (∀ c ∈ xs ++ [b], (h' c).prev = (h c).prev) → Seg h' a xs b := by
  induction xs with
  | nil =>
    intro a hs hn hp
    exact ⟨by rw [hn a (by simp)]; exact hs.1, by rw [hp b (by simp)]; exact hs.2⟩
  | cons x xs ih =>
    intro a hs hn hp
    refine ⟨by rw [hn a (by simp)]; exact hs.1, by rw [hp x (by simp)]; exact hs.2.1, ?_⟩
    exact ih hs.2.2 (fun c hc => hn c (List.mem_cons_of_mem _ hc))
      (fun c hc => hp c (List.mem_cons_of_mem _ hc))

theorem IsRing.congr {h h' : Heap ν} {hd : ν} {xs : List ν} (hr : IsRing h hd xs)
    (hc : ∀ c ∈ hd :: xs, h' c = h c) : IsRing h' hd xs := by
  refine ⟨hr.nodup, hr.seg.congr (fun c hm => by rw [hc c hm]) (fun c hm => ?_)⟩
  rw [hc c (by simp at hm ⊢; tauto)]

theorem Link.ext_iff' {l m : Link ν} : l = m ↔ l.next = m.next ∧ l.prev = m.prev := by
  cases l; cases m; simp

/-- The neighbours of a member. -/
theorem IsRing.neighbours {h : Heap ν} {hd x : ν} {ys zs : List ν} (hr : IsRing h hd (ys ++ x :: zs)) :
    (h x).prev = some (lastOf hd ys) ∧ (h x).next = some (firstOf hd zs) :=
  ⟨(seg_append.1 hr.seg).1.prev_eq, (seg_append.1 hr.seg).2.next_eq⟩

/-- The neighbours of the head. -/
theorem IsRing.head_eq {h : Heap ν} {hd : ν} {xs : List ν} (hr : IsRing h hd xs) :
    (h hd).next = some (firstOf hd xs) ∧ (h hd).prev = some (lastOf hd xs) :=
  ⟨hr.seg.next_eq, hr.seg.prev_eq⟩

section Update

variable [DecidableEq ν] {h : Heap ν} {a b p n x hd : ν} {xs ys zs : List ν}

def setNext (h : Heap ν) (a : ν) (v : Option ν) : Heap ν :=
  fun c => if c = a then { h c with next := v } else h c

def setPrev (h : Heap ν) (a : ν) (v : Option ν) : Heap ν :=
  fun c => if c = a then { h c with prev := v } else h c

@[simp] theorem setNext_next (c : ν) (v : Option ν) :
    (setNext h a v c).next = if c = a then v else (h c).next := by
  by_cases hc : c = a <;> simp [setNext, hc]

@[simp] theorem setNext_prev (c : ν) (v : Option ν) :
    (setNext h a v c).prev = (h c).prev := by
  by_cases hc : c = a <;> simp [setNext, hc]

@[simp] theorem setPrev_prev (c : ν) (v : Option ν) :
    (setPrev h a v c).prev = if c = a then v else (h c).prev := by
  by_cases hc : c = a <;> simp [setPrev, hc]

@[simp] theorem setPrev_next (c : ν) (v : Option ν) :
    (setPrev h a v c).next = (h c).next := by
  by_cases hc : c = a <;> simp [setPrev, hc]

/-- `h'` is `h` with `x` written between `p` and `n`. -/
structure Inserted (h h' : Heap ν) (x p n : ν) : Prop where
  next : ∀ c, (h' c).next = if c = p then some x else if c = x then some n else (h c).next
  prev : ∀ c, (h' c).prev = if c = x then some p else if c = n then some x else (h c).prev

/-- `h'` is `h` with `p` and `n` linked past `x`, and the pointers of `x` cleared. -/
structure Unlinked (h h' : Heap ν) (x p n : ν) : Prop where
  next : ∀ c, (h' c).next = if c = x then none else if c = p then some n else (h c).next
  prev : ∀ c, (h' c).prev = if c = x then none else if c = n then some p else (h c).prev

theorem Inserted.frame {h' : Heap ν} (hi : Inserted h h' x p n) {c : ν} (hx : c ≠ x) (hp : c ≠ p)
    (hn : c ≠ n) : h' c = h c := by
  rw [Link.ext_iff', hi.next, hi.prev]; simp [hx, hp, hn]

theorem Unlinked.frame {h' : Heap ν} (hi : Unlinked h h' x p n) {c : ν} (hx : c ≠ x) (hp : c ≠ p)
    (hn : c ≠ n) : h' c = h c := by
  rw [Link.ext_iff', hi.next, hi.prev]; simp [hx, hp, hn]

/-- An insertion into a ring writes no node off it. -/
theorem Inserted.off {h' : Heap ν} {c : ν} (hi : Inserted h h' x (lastOf a ys) (firstOf a zs))
    (hc : c ∉ x :: a :: (ys ++ zs)) : h' c = h c := by
  have hl := lastOf_mem a ys
  have hf := firstOf_mem a zs
  simp only [List.mem_cons, List.mem_append, List.not_mem_nil, or_false, not_or] at hl hf hc
  refine hi.frame hc.1 ?_ ?_
  · rintro rfl
    tauto
  · rintro rfl
    tauto

/-- Unlinking a member of a ring writes no node off it. -/
theorem Unlinked.off {h' : Heap ν} {c : ν} (hi : Unlinked h h' x (lastOf a ys) (firstOf a zs))
    (hc : c ∉ a :: (ys ++ x :: zs)) : h' c = h c := by
  have hl := lastOf_mem a ys
  have hf := firstOf_mem a zs
  simp only [List.mem_cons, List.mem_append, List.not_mem_nil, or_false, not_or] at hl hf hc
  refine hi.frame hc.2.2.1 ?_ ?_
  · rintro rfl
    tauto
  · rintro rfl
    tauto

/-- Writing a fresh node between the neighbours `ys` and `zs` of a segment. The
induction is on `ys`; at its end the new node stands between `a` and `zs`. -/
theorem Seg.insert {h' : Heap ν} : ∀ {a ys}, Seg h a (ys ++ zs) b →
    (a :: (ys ++ zs)).Nodup → b ∉ ys ++ zs → x ∉ a :: (ys ++ zs) → x ≠ b →
    Inserted h h' x (lastOf a ys) (firstOf b zs) → Seg h' a (ys ++ x :: zs) b := by
  intro a ys
  induction ys generalizing a with
  | nil =>
    intro hs hnd hb hx hxb hi
    simp only [List.nil_append, List.mem_cons, not_or] at hs hnd hb hx ⊢
    refine ⟨by simp [hi.next, lastOf], by simp [hi.prev, lastOf], ?_⟩
    -- `x` is the last of the segment or has `z` behind it
    cases zs with
    | nil =>
      refine ⟨?_, ?_⟩
      · rw [hi.next]; simp [lastOf, firstOf, hx.1]
      · rw [hi.prev]; simp [firstOf, Ne.symm hxb]
    | cons z zs =>
      simp only [firstOf, lastOf, List.mem_cons, not_or, List.nodup_cons] at *
      refine ⟨?_, ?_, hs.2.2.congr ?_ ?_⟩
      · rw [hi.next]; simp [hx.1]
      · rw [hi.prev]; simp [Ne.symm hx.2.1]
      · intro c hc
        have h1 : c ≠ a := by rintro rfl; simp at hc; tauto
        have h2 : c ≠ x := by rintro rfl; simp at hc; tauto
        rw [hi.next]; simp [h1, h2]
      · intro c hc
        have h1 : c ≠ z := by rintro rfl; simp at hc; tauto
        have h2 : c ≠ x := by rintro rfl; simp at hc; tauto
        rw [hi.prev]; simp [h1, h2]
  | cons y ys ih =>
    intro hs hnd hb hx hxb hi
    have hlast := lastOf_mem y ys
    simp only [List.cons_append, List.mem_cons, not_or, List.nodup_cons] at hs hnd hb hx ⊢
    have hap : a ≠ lastOf y ys := by
      rintro rfl; simp only [List.mem_cons, List.mem_append] at hlast hnd; tauto
    have hyn : y ≠ firstOf b zs := by
      have := firstOf_mem b zs
      rintro rfl; simp only [List.mem_append, List.mem_singleton] at this hnd hb; tauto
    refine ⟨?_, ?_, ih hs.2.2 (by simpa using hnd.2) hb.2 (by simpa using hx.2) hxb hi⟩
    · rw [hi.next, show lastOf a (y :: ys) = lastOf y ys from rfl]
      simp [hap, Ne.symm hx.1, hs.1]
    · rw [hi.prev]; simp [hyn, Ne.symm hx.2.1, hs.2.1]

/-- Linking past the member `x` between `ys` and `zs` of a segment. -/
theorem Seg.unlink {h' : Heap ν} : ∀ {a ys}, Seg h a (ys ++ x :: zs) b →
    (a :: (ys ++ x :: zs)).Nodup → b ∉ ys ++ x :: zs →
    Unlinked h h' x (lastOf a ys) (firstOf b zs) → Seg h' a (ys ++ zs) b := by
  intro a ys
  induction ys generalizing a with
  | nil =>
    intro hs hnd hb hi
    simp only [List.nil_append, List.mem_cons, not_or, List.nodup_cons] at hs hnd hb ⊢
    -- `x` was the last of the segment or had `z` behind it
    cases zs with
    | nil =>
      refine ⟨?_, ?_⟩
      · rw [hi.next]; simp [lastOf, firstOf, hnd.1.1]
      · rw [hi.prev]; simp [lastOf, firstOf, hb.1]
    | cons z zs =>
      simp only [firstOf, lastOf, List.mem_cons, not_or, List.nodup_cons] at *
      refine ⟨?_, ?_, hs.2.2.2.2.congr ?_ ?_⟩
      · rw [hi.next]; simp [hnd.1.1]
      · rw [hi.prev]; simp [Ne.symm hnd.2.1.1]
      · intro c hc
        have h1 : c ≠ a := by rintro rfl; simp at hc; tauto
        have h2 : c ≠ x := by rintro rfl; simp at hc; tauto
        rw [hi.next]; simp [h1, h2]
      · intro c hc
        have h1 : c ≠ z := by rintro rfl; simp at hc; tauto
        have h2 : c ≠ x := by rintro rfl; simp at hc; tauto
        rw [hi.prev]; simp [h1, h2]
  | cons y ys ih =>
    intro hs hnd hb hi
    have hlast := lastOf_mem y ys
    simp only [List.cons_append, List.mem_cons, not_or, List.nodup_cons] at hs hnd hb ⊢
    have hap : a ≠ lastOf y ys := by
      rintro rfl; simp only [List.mem_cons, List.mem_append] at hlast hnd; tauto
    have hax : a ≠ x := by rintro rfl; simp at hnd
    have hyx : y ≠ x := by rintro rfl; simp at hnd
    have hyn : y ≠ firstOf b zs := by
      have := firstOf_mem b zs
      rintro rfl; simp only [List.mem_append, List.mem_cons] at this hnd hb; tauto
    refine ⟨?_, ?_, ih hs.2.2 (by simpa using hnd.2) hb.2 hi⟩
    · rw [hi.next, show lastOf a (y :: ys) = lastOf y ys from rfl]
      simp [hap, hax, hs.1]
    · rw [hi.prev]; simp [hyn, hyx, hs.2.1]

theorem IsRing.insert {h' : Heap ν} (hr : IsRing h hd (ys ++ zs)) (hx : x ∉ hd :: (ys ++ zs))
    (hi : Inserted h h' x (lastOf hd ys) (firstOf hd zs)) : IsRing h' hd (ys ++ x :: zs) := by
  have hnd := hr.nodup
  refine ⟨?_, hr.seg.insert hnd (List.nodup_cons.1 hnd).1 hx (fun e => hx (by simp [e])) hi⟩
  have hp : (hd :: (ys ++ x :: zs)).Perm (x :: hd :: (ys ++ zs)) :=
    (List.Perm.cons hd List.perm_middle).trans (List.Perm.swap _ _ _)
  exact hp.nodup_iff.2 (List.nodup_cons.2 ⟨hx, hnd⟩)

theorem IsRing.unlink {h' : Heap ν} (hr : IsRing h hd (ys ++ x :: zs))
    (hi : Unlinked h h' x (lastOf hd ys) (firstOf hd zs)) : IsRing h' hd (ys ++ zs) := by
  have hnd := hr.nodup
  refine ⟨?_, hr.seg.unlink hnd (List.nodup_cons.1 hnd).1 hi⟩
  exact hnd.sublist ((List.sublist_cons_self x zs).append_left ys |>.cons_cons hd)

end Update

/-- The nodes reached by following `next` from `o` until the head `hd` or a null
pointer, at most `n` of them. -/
def walk [DecidableEq ν] (h : Heap ν) (hd : ν) : ℕ → Option ν → List ν
  | 0, _ => []
  | _ + 1, none => []
  | n + 1, some a => if a = hd then [] else a :: walk h hd n (h a).next

/-- **Following `next` reads a ring's members back**, given enough steps. -/
theorem walk_eq [DecidableEq ν] {h : Heap ν} {hd : ν} {xs : List ν} (hr : IsRing h hd xs) {n : ℕ}
    (hn : xs.length < n) : walk h hd n (h hd).next = xs := by
  have key : ∀ (xs : List ν) (a : ν) (n : ℕ), Seg h a xs hd → hd ∉ xs → xs.length < n →
      walk h hd n (h a).next = xs := by
    intro xs
    induction xs with
    | nil =>
      intro a n hs _ hn
      obtain ⟨m, rfl⟩ : ∃ m, n = m + 1 := ⟨n - 1, by simp at hn; omega⟩
      rw [hs.1]; simp [walk]
    | cons x xs ih =>
      intro a n hs hd' hn
      obtain ⟨m, rfl⟩ : ∃ m, n = m + 1 := ⟨n - 1, by simp at hn; omega⟩
      rw [hs.1]
      simp only [walk, if_neg (fun e : x = hd => hd' (by simp [e])), List.cons.injEq, true_and]
      exact ih x m hs.2.2 (fun hm => hd' (List.mem_cons_of_mem _ hm)) (by simp at hn; omega)
  exact key xs hd n hr.seg (List.nodup_cons.1 hr.nodup).1 hn

/-! ### Families of disjoint rings -/

/-- The heads satisfying `A` carry pairwise disjoint rings, of members `q`. -/
structure Rings (h : Heap ν) (A : ν → Prop) (q : ν → List ν) : Prop where
  ring : ∀ a, A a → IsRing h a (q a)
  disj : ∀ a b, A a → A b → a ≠ b → List.Disjoint (a :: q a) (b :: q b)

/-- `x` is on no ring of the family. -/
def OffRings (A : ν → Prop) (q : ν → List ν) (x : ν) : Prop := ∀ a, A a → x ∉ a :: q a

variable {h h' : Heap ν} {A A' : ν → Prop} {q q' : ν → List ν} {a x : ν} {ys zs : List ν}

/-- A node is on the ring of one head only. -/
theorem Rings.unique (hR : Rings h A q) {b : ν} (ha : A a) (hb : A b) (hxa : x ∈ a :: q a)
    (hxb : x ∈ b :: q b) : a = b := by
  by_contra hne; exact hR.disj a b ha hb hne hxa hxb

/-- The family without a ring. -/
theorem rings_none (h : Heap ν) (q : ν → List ν) : Rings h (fun _ => False) q :=
  ⟨fun _ ha => ha.elim, fun _ _ ha => ha.elim⟩

theorem Rings.mono (hR : Rings h A q) (hA : ∀ a, A' a → A a) : Rings h A' q :=
  ⟨fun a ha => hR.ring a (hA a ha), fun a b ha hb => hR.disj a b (hA a ha) (hA b hb)⟩

/-- The sequences matter at the heads only. -/
theorem Rings.congr_seq (hR : Rings h A q) (hq : ∀ a, A a → q' a = q a) : Rings h A q' :=
  ⟨fun a ha => hq a ha ▸ hR.ring a ha, fun a b ha hb => by rw [hq a ha, hq b hb]; exact hR.disj a b ha hb⟩

/-- Nodes off the rings may change. -/
theorem Rings.frame (hR : Rings h A q) (hc : ∀ c, h' c ≠ h c → OffRings A q c) : Rings h' A q := by
  refine ⟨fun a ha => (hR.ring a ha).congr fun c hm => ?_, hR.disj⟩
  by_contra hne; exact hc c hne a ha hm

variable [DecidableEq ν]

/-- **Inserting** a node that is on no ring into the ring of `a`. -/
theorem Rings.insert (hR : Rings h A q) (ha : A a) (hq : q a = ys ++ zs) (hx : OffRings A q x)
    (hi : Inserted h h' x (lastOf a ys) (firstOf a zs)) :
    Rings h' A (Function.update q a (ys ++ x :: zs)) := by
  have hra := hR.ring a ha
  rw [hq] at hra
  have hxa : x ∉ a :: (ys ++ zs) := by have := hx a ha; rwa [hq] at this
  have hl : lastOf a ys ∈ a :: q a := by
    have := lastOf_mem a ys; rw [hq]; simp at this ⊢; tauto
  have hf : firstOf a zs ∈ a :: q a := by
    have := firstOf_mem a zs; rw [hq]; simp at this ⊢; tauto
  have hmem : ∀ b c, A b → b ≠ a → c ∈ b :: q b → c ∉ x :: a :: q a := by
    intro b c hb hne hc hm
    rcases List.mem_cons.1 hm with rfl | hm
    · exact hx b hb hc
    · exact hR.disj b a hb ha hne hc hm
  have hsub : ∀ c, c ∈ a :: (ys ++ x :: zs) → c ∈ x :: a :: q a := by
    intro c hc; rw [hq]; simp at hc ⊢; tauto
  refine ⟨fun b hb => ?_, fun b c hb hc hne => ?_⟩
  · by_cases hba : b = a
    · subst hba; simpa using hra.insert hxa hi
    · rw [Function.update_of_ne hba]
      refine (hR.ring b hb).congr fun c hc => ?_
      have hn := hmem b c hb hba hc
      refine hi.frame (fun e => hn (by simp [e])) (fun e => ?_) (fun e => ?_)
      · exact hn (List.mem_cons_of_mem _ (e ▸ hl))
      · exact hn (List.mem_cons_of_mem _ (e ▸ hf))
  · intro y hyb hyc
    by_cases hba : b = a
    · subst hba
      rw [Function.update_of_ne (Ne.symm hne)] at hyc
      rw [Function.update_self] at hyb
      exact hmem c y hc (Ne.symm hne) hyc (hsub y hyb)
    · rw [Function.update_of_ne hba] at hyb
      by_cases hca : c = a
      · subst hca; rw [Function.update_self] at hyc
        exact hmem b y hb hba hyb (hsub y hyc)
      · rw [Function.update_of_ne hca] at hyc
        exact hR.disj b c hb hc hne hyb hyc

/-- **Unlinking** a member of the ring of `a`. -/
theorem Rings.unlink (hR : Rings h A q) (ha : A a) (hq : q a = ys ++ x :: zs)
    (hi : Unlinked h h' x (lastOf a ys) (firstOf a zs)) :
    Rings h' A (Function.update q a (ys ++ zs)) := by
  have hra := hR.ring a ha
  rw [hq] at hra
  have hl : lastOf a ys ∈ a :: q a := by
    have := lastOf_mem a ys; rw [hq]; simp at this ⊢; tauto
  have hf : firstOf a zs ∈ a :: q a := by
    have := firstOf_mem a zs; rw [hq]; simp at this ⊢; tauto
  have hsub : ∀ c, c ∈ a :: (ys ++ zs) → c ∈ a :: q a := by
    intro c hc; rw [hq]; simp at hc ⊢; tauto
  refine ⟨fun b hb => ?_, fun b c hb hc hne => ?_⟩
  · by_cases hba : b = a
    · subst hba; simpa using hra.unlink hi
    · rw [Function.update_of_ne hba]
      refine (hR.ring b hb).congr fun c hc => ?_
      have hd := hR.disj b a hb ha hba hc
      refine hi.frame (fun e => hd (by rw [hq]; simp [e])) (fun e => hd (e ▸ hl)) (fun e => hd (e ▸ hf))
  · intro y hyb hyc
    by_cases hba : b = a
    · subst hba
      rw [Function.update_of_ne (Ne.symm hne)] at hyc
      rw [Function.update_self] at hyb
      exact hR.disj b c hb hc hne (hsub y hyb) hyc
    · rw [Function.update_of_ne hba] at hyb
      by_cases hca : c = a
      · subst hca; rw [Function.update_self] at hyc
        exact hR.disj b c hb hc hne hyb (hsub y hyc)
      · rw [Function.update_of_ne hca] at hyc
        exact hR.disj b c hb hc hne hyb hyc

/-- An unlinked member is on no ring any more. -/
theorem Rings.unlink_off (hR : Rings h A q) (ha : A a) (hq : q a = ys ++ x :: zs) :
    OffRings A (Function.update q a (ys ++ zs)) x := by
  intro b hb hxb
  have hxa : x ∈ a :: q a := by rw [hq]; simp
  by_cases hba : b = a
  · subst hba
    have hnd := (hR.ring b ha).nodup
    rw [hq] at hnd
    rw [Function.update_self] at hxb
    have hp : (b :: (ys ++ x :: zs)).Perm (x :: b :: (ys ++ zs)) :=
      (List.Perm.cons b List.perm_middle).trans (List.Perm.swap _ _ _)
    exact (List.nodup_cons.1 (hp.nodup_iff.1 hnd)).1 hxb
  · rw [Function.update_of_ne hba] at hxb
    exact hba (hR.unique hb ha hxb hxa)

/-- **A new empty ring** at a node that was on none. -/
theorem Rings.single (hR : Rings h A q) (hx : OffRings A q x) (hl : h' x = ⟨some x, some x⟩)
    (hc : ∀ c, c ≠ x → h' c = h c) :
    Rings h' (fun a => A a ∨ a = x) (Function.update q x []) := by
  have hR' : Rings h' A q := hR.frame fun c hne => by
    by_cases hcx : c = x
    · rw [hcx]; exact hx
    · exact absurd (hc c hcx) hne
  have hxq : ∀ b, A b → b ≠ x := fun b hb e => hx b hb (by simp [e])
  refine ⟨fun b hb => ?_, fun b c hb hc' hne y hyb hyc => ?_⟩
  · by_cases hbx : b = x
    · subst hbx; rw [Function.update_self]
      exact ⟨by simp, by simp [Seg, hl]⟩
    · rw [Function.update_of_ne hbx]; exact hR'.ring b (hb.resolve_right hbx)
  · by_cases hbx : b = x
    · subst hbx
      simp at hyb; subst hyb
      rw [Function.update_of_ne (Ne.symm hne)] at hyc
      exact hx c (hc'.resolve_right (Ne.symm hne)) hyc
    · rw [Function.update_of_ne hbx] at hyb
      by_cases hcx : c = x
      · subst hcx; simp at hyc; subst hyc
        exact hx b (hb.resolve_right hbx) hyb
      · rw [Function.update_of_ne hcx] at hyc
        exact hR'.disj b c (hb.resolve_right hbx) (hc'.resolve_right hcx) hne hyb hyc

end LinkHeap
