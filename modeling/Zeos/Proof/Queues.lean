import Mathlib.Data.Fintype.Sum
import Mathlib.Tactic.DeriveFintype
import Zeos.ListHead

/-!
# The queues of the kernel

`Queues h I q off`: the heap `h` of `list_head`s carries disjoint rings with the
contents `q`, for `freequeue`, `readyqueue` and the `blocked` list of each
initialised semaphore (`I`), and the task structs on none of them are those of `off`.

The head of a semaphore's list can itself end up on `readyqueue`
(`Queues.splice`); it is a member there and no head any more.

* `Queues.insert`, `Queues.remove`: a task goes on a queue, or off it.
* `Queues.init`, `Queues.retire`: a semaphore's list comes into being, or goes.
* `Queues.members_eq`: what is read along `next` is the content.
-/

namespace Zeos

open LinkHeap

deriving instance Fintype for Node

/-- The nodes that head a ring. -/
def Heads (I : Sem → Prop) (q : Node → List Node) : Node → Prop
  | .freequeue => True
  | .readyqueue => True
  | .blocked n => I n ∧ Node.blocked n ∉ q .readyqueue
  | .task _ => False

structure Queues (h : Heap Node) (I : Sem → Prop) (q : Node → List Node) (off : Slot → Prop) :
    Prop where
  rings : Rings h (Heads I q) q
  free_task : ∀ x ∈ q .freequeue, ∃ s, x = .task s
  ready_node : ∀ x ∈ q .readyqueue, (∃ s, x = .task s) ∨ ∃ n, I n ∧ x = .blocked n
  blocked_task : ∀ n, Heads I q (.blocked n) → ∀ x ∈ q (.blocked n), ∃ s, x = .task s
  place : ∀ s, (∀ a, Heads I q a → .task s ∉ q a) ↔ off s

variable {h h' : Heap Node} {I : Sem → Prop} {q q' : Node → List Node} {off off' : Slot → Prop}
  {a : Node} {s : Slot} {n : Sem} {ys zs : List Node}

theorem Heads.congr (hq : ∀ n, I n → (Node.blocked n ∈ q' .readyqueue ↔ Node.blocked n ∈ q .readyqueue)) :
    Heads I q' = Heads I q := by
  funext a
  cases a with
  | blocked n =>
    simp only [Heads, eq_iff_iff]
    exact and_congr_right fun hn => not_congr (hq n hn)
  | _ => rfl

theorem Heads.free : Heads I q .freequeue := trivial

theorem Heads.ready : Heads I q .readyqueue := trivial

theorem Heads.not_task (ha : Heads I q a) : a ≠ .task s := by rintro rfl; exact ha

namespace Queues

variable (hQ : Queues h I q off)

include hQ

theorem congr_off (ho : ∀ s, off s ↔ off' s) : Queues h I q off' :=
  { hQ with place := fun s => (hQ.place s).trans (ho s) }

theorem off_rings (hs : off s) : OffRings (Heads I q) q (.task s) := fun a ha hm => by
  rcases List.mem_cons.1 hm with e | hm
  · exact ha.not_task e.symm
  · exact (hQ.place s).2 hs a ha hm

/-- The nodes of the tasks on no queue may change. -/
theorem frame (hc : ∀ c, h' c ≠ h c → ∃ s, c = .task s ∧ off s) : Queues h' I q off :=
  { hQ with
    rings := hQ.rings.frame fun c hne => by
      obtain ⟨s, rfl, hs⟩ := hc c hne
      exact hQ.off_rings hs }

theorem nodup (ha : Heads I q a) : (a :: q a).Nodup := (hQ.rings.ring a ha).nodup

/-- **The contents are what `members` reads.** -/
theorem members_eq (ha : Heads I q a) : walk h a numNodes (h a).next = q a := by
  refine walk_eq (hQ.rings.ring a ha) ?_
  have := (hQ.nodup ha).length_le_card
  rw [List.length_cons, show Fintype.card Node = numNodes from rfl] at this
  omega

/-- A task is on one queue only. -/
theorem unique {b : Node} (ha : Heads I q a) (hb : Heads I q b) (hsa : .task s ∈ q a)
    (hsb : .task s ∈ q b) : a = b :=
  hQ.rings.unique ha hb (List.mem_cons_of_mem _ hsa) (List.mem_cons_of_mem _ hsb)

theorem not_off (ha : Heads I q a) (hs : .task s ∈ q a) : ¬ off s := fun ho =>
  (hQ.place s).2 ho a ha hs

/-- **A task goes on a queue**, before any node `firstOf a zs` of its ring. -/
theorem insert (ha : Heads I q a) (hq : q a = ys ++ zs) (hs : off s) :
    ∃ h', listAddTail h (.task s) (firstOf a zs) = .ok h' ∧
      Queues h' I (Function.update q a (ys ++ .task s :: zs)) fun t => off t ∧ t ≠ s := by
  obtain ⟨h', h1, h2⟩ := listAddTail_before hQ.rings ha hq (hQ.off_rings hs)
  have hmem : ∀ b x, x ∈ Function.update q a (ys ++ .task s :: zs) b ↔
      x ∈ q b ∨ (b = a ∧ x = .task s) := by
    intro b x
    by_cases hb : b = a
    · subst hb; rw [Function.update_self, hq]; simp; tauto
    · rw [Function.update_of_ne hb]; simp [hb]
  -- the new member is a task, so the heads are the same
  have hH : Heads I (Function.update q a (ys ++ .task s :: zs)) = Heads I q :=
    Heads.congr fun n _ => by rw [hmem]; simp
  refine ⟨h', h1, ?_, ?_, ?_, ?_, ?_⟩
  · rw [hH]; exact h2
  · intro x hx
    rcases (hmem _ _).1 hx with hx | ⟨-, rfl⟩
    · exact hQ.free_task x hx
    · exact ⟨s, rfl⟩
  · intro x hx
    rcases (hmem _ _).1 hx with hx | ⟨-, rfl⟩
    · exact hQ.ready_node x hx
    · exact .inl ⟨s, rfl⟩
  · intro n hn x hx
    rcases (hmem _ _).1 hx with hx | ⟨-, rfl⟩
    · exact hQ.blocked_task n (hH ▸ hn) x hx
    · exact ⟨s, rfl⟩
  · intro t
    rw [hH, ← hQ.place t]
    constructor
    · intro hall
      refine ⟨fun b hb hm => hall b hb ((hmem _ _).2 (.inl hm)), ?_⟩
      rintro rfl; exact hall a ha ((hmem _ _).2 (.inr ⟨rfl, rfl⟩))
    · rintro ⟨hall, hne⟩ b hb hm
      rcases (hmem _ _).1 hm with hm | ⟨-, e⟩
      · exact hall b hb hm
      · exact hne (by simpa using e)

/-- `list_add_tail` of a task to a head. -/
theorem push (ha : Heads I q a) (hs : off s) :
    ∃ h', listAddTail h (.task s) a = .ok h' ∧
      Queues h' I (Function.update q a (q a ++ [.task s])) fun t => off t ∧ t ≠ s :=
  hQ.insert ha (List.append_nil _).symm hs

/-- **A task goes off its queue.** -/
theorem remove (ha : Heads I q a) (hq : q a = ys ++ .task s :: zs) :
    ∃ h', listDel h (.task s) = .ok h' ∧
      Queues h' I (Function.update q a (ys ++ zs)) fun t => off t ∨ t = s := by
  obtain ⟨h', h1, h2⟩ := listDel_rings hQ.rings ha hq
  have hnd := (List.nodup_cons.1 (hQ.nodup ha)).2
  rw [hq] at hnd
  -- a queue has no task twice
  have hns : Node.task s ∉ ys ++ zs := fun hm =>
    (List.nodup_cons.1 (List.perm_middle.nodup_iff.1 hnd)).1 hm
  have hmem : ∀ b x, x ∈ q b ↔
      x ∈ Function.update q a (ys ++ zs) b ∨ (b = a ∧ x = .task s) := by
    intro b x
    by_cases hb : b = a
    · subst hb; rw [Function.update_self, hq]; simp; tauto
    · rw [Function.update_of_ne hb]; simp [hb]
  have hH : Heads I (Function.update q a (ys ++ zs)) = Heads I q :=
    Heads.congr fun n _ => by rw [hmem]; simp
  have hsub : ∀ b x, x ∈ Function.update q a (ys ++ zs) b → x ∈ q b := fun b x hx =>
    (hmem b x).2 (.inl hx)
  refine ⟨h', h1, hH ▸ h2, fun x hx => hQ.free_task x (hsub _ _ hx),
    fun x hx => hQ.ready_node x (hsub _ _ hx),
    fun n hn x hx => hQ.blocked_task n (hH ▸ hn) x (hsub _ _ hx), fun t => ?_⟩
  rw [hH, ← hQ.place t]
  constructor
  · intro hall
    by_cases hts : t = s
    · exact .inr hts
    · refine .inl fun b hb hm => ?_
      rcases (hmem _ _).1 hm with hm | ⟨-, e⟩
      · exact hall b hb hm
      · exact hts (by simpa using e)
  · rintro (hall | rfl) b hb hm
    · exact hall b hb (hsub _ _ hm)
    · have hb' : b = a := hQ.unique hb ha (hsub _ _ hm) (by rw [hq]; simp)
      subst hb'; rw [Function.update_self] at hm; exact hns hm

/-- `list_del` of the first task of a queue. -/
theorem pop (ha : Heads I q a) (hq : q a = .task s :: zs) :
    ∃ h', listDel h (.task s) = .ok h' ∧
      Queues h' I (Function.update q a zs) fun t => off t ∨ t = s :=
  hQ.remove ha (show q a = [] ++ .task s :: zs from hq)

/-- **The list of a semaphore comes into being.** -/
theorem init (hn : ¬ I n) :
    Queues (initListHead h (.blocked n)) (fun m => I m ∨ m = n) (Function.update q (.blocked n) []) off := by
  have hnr : Node.blocked n ∉ q .readyqueue := fun hm => by
    rcases hQ.ready_node _ hm with ⟨s, e⟩ | ⟨m, hm, e⟩
    · cases e
    · cases e; exact hn hm
  -- a head that is not initialized is in no ring: queues have tasks and initialized heads only
  have hoff : OffRings (Heads I q) q (.blocked n) := by
    intro a ha hm
    rcases List.mem_cons.1 hm with rfl | hm
    · exact hn ha.1
    · cases a with
      | freequeue => obtain ⟨s, e⟩ := hQ.free_task _ hm; cases e
      | readyqueue => exact hnr hm
      | blocked m => obtain ⟨s, e⟩ := hQ.blocked_task m ha _ hm; cases e
      | task s => exact ha
  have hH : ∀ a, Heads (fun m => I m ∨ m = n) (Function.update q (.blocked n) []) a ↔
      Heads I q a ∨ a = .blocked n := by
    intro a
    cases a with
    | blocked m =>
      by_cases hmn : m = n
      · subst hmn; simpa [Heads] using hnr
      · simp [Heads, hmn]
    | _ => simp [Heads]
  have hr := initListHead_rings hQ.rings hoff
  refine ⟨hr.mono fun a ha => (hH a).1 ha, fun x hx => hQ.free_task x (by simpa using hx),
    fun x hx => ?_, fun m hm x hx => ?_, fun s => ?_⟩
  · rcases hQ.ready_node x (by simpa using hx) with h | ⟨m, hm, e⟩
    · exact .inl h
    · exact .inr ⟨m, .inl hm, e⟩
  · by_cases hmn : m = n
    · subst hmn; simp at hx
    · refine hQ.blocked_task m (((hH _).1 hm).resolve_right (by simpa using hmn)) x ?_
      rwa [Function.update_of_ne (by simpa using hmn)] at hx
  · rw [← hQ.place s]
    constructor
    · intro hall a ha hm
      have hne : a ≠ .blocked n := by rintro rfl; exact hn ha.1
      exact hall a ((hH a).2 (.inl ha)) (by rwa [Function.update_of_ne hne])
    · intro hall a ha hm
      by_cases hne : a = .blocked n
      · subst hne; simp at hm
      · rw [Function.update_of_ne hne] at hm
        exact hall a (((hH a).1 ha).resolve_right hne) hm

/-- **An empty list of a semaphore goes.** -/
theorem retire (hn : Heads I q (.blocked n)) (hq : q (.blocked n) = []) :
    Queues h (fun m => I m ∧ m ≠ n) q off := by
  have hH : ∀ a, Heads (fun m => I m ∧ m ≠ n) q a ↔ Heads I q a ∧ a ≠ .blocked n := by
    intro a
    cases a with
    | blocked m => simp only [Heads, ne_eq, Node.blocked.injEq]; tauto
    | _ => simp [Heads]
  refine ⟨hQ.rings.mono fun a ha => ((hH a).1 ha).1, hQ.free_task, fun x hx => ?_,
    fun m hm => hQ.blocked_task m ((hH _).1 hm).1, fun s => ?_⟩
  · rcases hQ.ready_node x hx with h | ⟨m, hm, rfl⟩
    · exact .inl h
    · exact .inr ⟨m, ⟨hm, by rintro rfl; exact hn.2 hx⟩, rfl⟩
  · rw [← hQ.place s]
    refine ⟨fun hall a ha hm => ?_, fun hall a ha => hall a ((hH a).1 ha).1⟩
    by_cases hne : a = .blocked n
    · subst hne; rw [hq] at hm; simp at hm
    · exact hall a ((hH a).2 ⟨ha, hne⟩) hm

/-- **The head of an empty list moved to `readyqueue`.** -/
theorem splice (hn : Heads I q (.blocked n)) (hq : q (.blocked n) = []) :
    ∃ h₁ h₂, listDel h (.blocked n) = .ok h₁ ∧ listAddTail h₁ (.blocked n) .readyqueue = .ok h₂ ∧
      Queues h₂ I (Function.update q .readyqueue (q .readyqueue ++ [.blocked n])) off := by
  have hself := (hQ.rings.ring _ hn).head_eq
  rw [hq] at hself
  -- `list_del` of a head alone changes no other node
  obtain ⟨h₁, h1, hc⟩ := listDel_alone hself.2 hself.1
  let q' := Function.update q .readyqueue (q .readyqueue ++ [.blocked n])
  have hH : ∀ a, Heads I q' a ↔ Heads I q a ∧ a ≠ .blocked n := by
    intro a
    cases a with
    | blocked m => simp only [Heads, q', Function.update_self, List.mem_append,
        List.mem_singleton, ne_eq, Node.blocked.injEq]; tauto
    | _ => simp [Heads]
  -- without its ring the head is a node like any other
  have hoff : OffRings (fun a => Heads I q a ∧ a ≠ .blocked n) q (.blocked n) := by
    rintro a ⟨ha, hne⟩ hm
    exact hne (hQ.rings.unique ha hn hm List.mem_cons_self)
  have hr₁ : Rings h₁ (fun a => Heads I q a ∧ a ≠ .blocked n) q := by
    refine (hQ.rings.mono fun a ha => ha.1).frame fun c hne => ?_
    by_cases hcn : c = .blocked n
    · exact hcn ▸ hoff
    · exact absurd (hc c hcn) hne
  obtain ⟨h₂, h2, hr₂⟩ := listAddTail_rings hr₁ ⟨Heads.ready, by simp⟩ hoff
  refine ⟨h₁, h₂, h1, h2, hr₂.mono fun a ha => (hH a).1 ha, fun x hx => hQ.free_task x (by simpa using hx),
    fun x hx => ?_, fun m hm x hx => ?_, fun s => ?_⟩
  · rw [Function.update_self] at hx
    rcases List.mem_append.1 hx with hx | hx
    · exact hQ.ready_node x hx
    · exact .inr ⟨n, hn.1, by simpa using hx⟩
  · exact hQ.blocked_task m ((hH _).1 hm).1 x (by simpa [q'] using hx)
  · rw [← hQ.place s]
    constructor
    · intro hall a ha hm
      by_cases hne : a = .blocked n
      · subst hne; rw [hq] at hm; simp at hm
      · refine hall a ((hH a).2 ⟨ha, hne⟩) ?_
        by_cases har : a = .readyqueue
        · subst har; simp [hm]
        · simpa [q', har] using hm
    · intro hall a ha hm
      refine hall a ((hH a).1 ha).1 ?_
      by_cases har : a = .readyqueue
      · subst har; simpa [q'] using hm
      · simpa [q', har] using hm

/-- **A semaphore's head on `readyqueue` moved to its tail.** -/
theorem rotate (hq : q .readyqueue = ys ++ .blocked n :: zs) :
    ∃ h₁ h₂, listDel h (.blocked n) = .ok h₁ ∧ listAddTail h₁ (.blocked n) .readyqueue = .ok h₂ ∧
      Queues h₂ I (Function.update q .readyqueue (ys ++ zs ++ [.blocked n])) off := by
  obtain ⟨h₁, h1, hr₁⟩ := listDel_rings hQ.rings Heads.ready hq
  obtain ⟨h₂, h2, hr₂⟩ := listAddTail_rings hr₁ Heads.ready
    (hQ.rings.unlink_off Heads.ready hq)
  rw [Function.update_self, Function.update_idem] at hr₂
  have hmem : ∀ x, x ∈ ys ++ zs ++ [.blocked n] ↔ x ∈ q .readyqueue := by
    intro x; rw [hq]; simp; tauto
  have hH : Heads I (Function.update q .readyqueue (ys ++ zs ++ [.blocked n])) = Heads I q :=
    Heads.congr fun m _ => by rw [Function.update_self]; exact hmem _
  refine ⟨h₁, h₂, h1, h2, hH ▸ hr₂, fun x hx => hQ.free_task x (by simpa using hx), fun x hx => ?_,
    fun m hm x hx => hQ.blocked_task m (hH ▸ hm) x (by simpa using hx), fun s => ?_⟩
  · rw [Function.update_self] at hx; exact hQ.ready_node x ((hmem x).1 hx)
  · rw [hH, ← hQ.place s]
    refine forall_congr' fun a => imp_congr_right fun _ => not_congr ?_
    by_cases har : a = .readyqueue
    · subst har; rw [Function.update_self]; exact hmem _
    · rw [Function.update_of_ne har]

theorem firstOf_ready (hq : q .readyqueue = ys ++ .blocked n :: zs) :
    listFirst h (.blocked n) = .ok (firstOf .readyqueue zs) := by
  have hr := hQ.rings.ring _ Heads.ready
  rw [hq] at hr
  simp [listFirst, hr.neighbours.2]

end Queues

end Zeos
