import Zeos.Defs

/-!
# Intrusive lists (`list.c`)

The functions of `list.c` over any heap of `list_head`s. A store through a null
pointer is `Fault.null`.

* `listAddTail_rings`, `listDel_rings`: on a family of disjoint rings, adding at a
  head's tail appends to its sequence and deleting takes the node out of it.
* `listFirst_rings`, `listEmpty_rings`: what the head's `next` says.
-/

namespace Zeos

open LinkHeap

variable {ν : Type*} [DecidableEq ν]

/-- `p->next = v`. -/
def storeNext (h : Heap ν) (p v : Option ν) : Except Fault (Heap ν) :=
  match p with
  | some a => .ok (setNext h a v)
  | none => .error .null

/-- `p->prev = v`. -/
def storePrev (h : Heap ν) (p v : Option ν) : Except Fault (Heap ν) :=
  match p with
  | some a => .ok (setPrev h a v)
  | none => .error .null

def initListHead (h : Heap ν) (list : ν) : Heap ν :=
  setPrev (setNext h list (some list)) list (some list)

/-- `__list_add`. -/
def listAddBetween (h : Heap ν) (new : ν) (prev next : Option ν) : Except Fault (Heap ν) := do
  let h ← storePrev h next (some new)
  let h ← storeNext h (some new) next
  let h ← storePrev h (some new) prev
  storeNext h prev (some new)

def listAdd (h : Heap ν) (new head : ν) : Except Fault (Heap ν) :=
  listAddBetween h new (some head) (h head).next

def listAddTail (h : Heap ν) (new head : ν) : Except Fault (Heap ν) :=
  listAddBetween h new (h head).prev (some head)

/-- `__list_del`. -/
def listDelBetween (h : Heap ν) (prev next : Option ν) : Except Fault (Heap ν) := do
  let h ← storePrev h next prev
  storeNext h prev next

def listDel (h : Heap ν) (entry : ν) : Except Fault (Heap ν) := do
  let h ← listDelBetween h (h entry).prev (h entry).next
  let h ← storeNext h (some entry) none
  storePrev h (some entry) none

def listIsLast (h : Heap ν) (list head : ν) : Bool := (h list).next = some head

def listEmpty (h : Heap ν) (head : ν) : Bool := (h head).next = some head

/-- `list_first`; the callers follow the pointer, so a null one is a fault there. -/
def listFirst (h : Heap ν) (head : ν) : Except Fault ν :=
  match (h head).next with
  | some a => .ok a
  | none => .error .null

variable {h h' : Heap ν} {A : ν → Prop} {q : ν → List ν} {a x p n : ν} {ys zs : List ν}

theorem listAddBetween_spec (hn : x ≠ n) :
    ∃ h', listAddBetween h x (some p) (some n) = .ok h' ∧ Inserted h h' x p n := by
  refine ⟨_, rfl, fun c => ?_, fun c => ?_⟩
  · by_cases h1 : c = p <;> by_cases h2 : c = x <;> simp [h1, h2]
  · by_cases h1 : c = n <;> by_cases h2 : c = x <;> simp [h1, h2, Ne.symm hn]

theorem listDel_spec (hp : (h x).prev = some p) (hn : (h x).next = some n) :
    ∃ h', listDel h x = .ok h' ∧ Unlinked h h' x p n := by
  refine ⟨_, by simp only [listDel, hp, hn]; rfl, fun c => ?_, fun c => ?_⟩
  · by_cases h1 : c = p <;> by_cases h2 : c = x <;> simp [h1, h2]
  · by_cases h1 : c = n <;> by_cases h2 : c = x <;> simp [h1, h2]

/-- `list_add_tail` before any node `n` of a ring, the head (`zs = []`) or a member. -/
theorem listAddTail_inserts (hr : IsRing h a (ys ++ zs)) (hx : x ∉ a :: (ys ++ zs)) :
    ∃ h', listAddTail h x (firstOf a zs) = .ok h' ∧ Inserted h h' x (lastOf a ys) (firstOf a zs) := by
  have hprev : (h (firstOf a zs)).prev = some (lastOf a ys) := by
    cases zs with
    | nil => simpa [firstOf] using hr.head_eq.2
    | cons z zs => exact hr.neighbours.1
  have hf : x ≠ firstOf a zs := by
    have := firstOf_mem a zs
    rintro rfl
    exact hx (by simp at this ⊢; tauto)
  rw [listAddTail, hprev]
  exact listAddBetween_spec hf

/-- `list_add` behind the head of a ring. -/
theorem listAdd_inserts (hr : IsRing h a zs) (hx : x ∉ a :: zs) :
    ∃ h', listAdd h x a = .ok h' ∧ Inserted h h' x (lastOf a []) (firstOf a zs) := by
  have hf : x ≠ firstOf a zs := by
    have := firstOf_mem a zs
    rintro rfl
    exact hx (by simp at this ⊢; tauto)
  rw [listAdd, hr.head_eq.1]
  exact listAddBetween_spec hf

/-- `list_del` of a member. -/
theorem listDel_unlinks (hr : IsRing h a (ys ++ x :: zs)) :
    ∃ h', listDel h x = .ok h' ∧ Unlinked h h' x (lastOf a ys) (firstOf a zs) :=
  listDel_spec hr.neighbours.1 hr.neighbours.2

/-- **`list_add_tail` before any node `n` of a ring**, in a family of rings. -/
theorem listAddTail_before (hR : Rings h A q) (ha : A a) (hq : q a = ys ++ zs)
    (hx : OffRings A q x) :
    ∃ h', listAddTail h x (firstOf a zs) = .ok h' ∧
      Rings h' A (Function.update q a (ys ++ x :: zs)) := by
  obtain ⟨h', h1, h2⟩ := listAddTail_inserts (hq ▸ hR.ring a ha) (hq ▸ hx a ha)
  exact ⟨h', h1, hR.insert ha hq hx h2⟩

/-- **`list_add_tail` appends.** -/
theorem listAddTail_rings (hR : Rings h A q) (ha : A a) (hx : OffRings A q x) :
    ∃ h', listAddTail h x a = .ok h' ∧ Rings h' A (Function.update q a (q a ++ [x])) :=
  listAddTail_before hR ha (List.append_nil _).symm hx

/-- **`list_del` takes a member out.** -/
theorem listDel_rings (hR : Rings h A q) (ha : A a) (hq : q a = ys ++ x :: zs) :
    ∃ h', listDel h x = .ok h' ∧ Rings h' A (Function.update q a (ys ++ zs)) := by
  obtain ⟨h', h1, h2⟩ := listDel_unlinks (hq ▸ hR.ring a ha)
  exact ⟨h', h1, hR.unlink ha hq h2⟩

theorem storeNext_error {p v : Option ν} {e : Fault} (he : storeNext h p v = .error e) : e = .null := by
  cases p <;> cases he; rfl

theorem storePrev_error {p v : Option ν} {e : Fault} (he : storePrev h p v = .error e) : e = .null := by
  cases p <;> cases he; rfl

/-- All that `list_del` can run into is a null pointer. -/
theorem listDel_error {e : Fault} (he : listDel h x = .error e) : e = .null := by
  cases h1 : storePrev h (h x).next (h x).prev with
  | error e' =>
    simp only [listDel, listDelBetween, h1, bind, Except.bind] at he
    cases he; exact storePrev_error h1
  | ok h₁ =>
    cases h2 : storeNext h₁ (h x).prev (h x).next with
    | error e' =>
      simp only [listDel, listDelBetween, h1, h2, bind, Except.bind] at he
      cases he; exact storeNext_error h2
    | ok h₂ =>
      simp only [listDel, listDelBetween, h1, h2, bind, Except.bind] at he
      cases he

/-- A deleted node put at its own tail: its `prev` is null. -/
theorem listDel_add_self (hd : listDel h x = .ok h') : listAddTail h' x x = .error .null := by
  have hp : (h' x).prev = none := by
    obtain ⟨h₁, -, h2⟩ := ForLoop.bind_ok.1 hd
    cases h2; simp
  rw [listAddTail, hp]; rfl

/-- `list_del` of a node that stands alone changes that node only. -/
theorem listDel_alone (hp : (h x).prev = some x) (hn : (h x).next = some x) :
    ∃ h', listDel h x = .ok h' ∧ ∀ c, c ≠ x → h' c = h c := by
  obtain ⟨h', h1, h2⟩ := listDel_spec hp hn
  exact ⟨h', h1, fun c hc => h2.frame hc hc hc⟩

omit [DecidableEq ν] in
theorem listFirst_rings (hR : Rings h A q) (ha : A a) : listFirst h a = .ok (firstOf a (q a)) := by
  simp [listFirst, (hR.ring a ha).head_eq.1]

theorem listEmpty_rings (hR : Rings h A q) (ha : A a) : listEmpty h a = true ↔ q a = [] := by
  have hr := hR.ring a ha
  simp only [listEmpty, hr.head_eq.1, Option.some.injEq, decide_eq_true_eq]
  cases hq : q a with
  | nil => simp [firstOf]
  | cons x xs =>
    have := hr.nodup
    rw [hq] at this
    simp only [firstOf, reduceCtorEq, iff_false]
    rintro rfl; simp at this

theorem initListHead_eq (list : ν) : initListHead h list list = ⟨some list, some list⟩ := by
  rw [Link.ext_iff']; simp [initListHead]

theorem initListHead_ne {list c : ν} (hc : c ≠ list) : initListHead h list c = h c := by
  rw [Link.ext_iff']; simp [initListHead, hc]

/-- `INIT_LIST_HEAD` on a node that is on no ring adds an empty ring there. -/
theorem initListHead_rings (hR : Rings h A q) (hx : OffRings A q x) :
    Rings (initListHead h x) (fun a => A a ∨ a = x) (Function.update q x []) :=
  hR.single hx (initListHead_eq x) fun _ hc => initListHead_ne hc

end Zeos
