import Zeos.Lib.Ring
import Zeos.User

/-!
# The frame buffer

`frame_buff` is a ring of `BUFF_SIZE` cells (`FrameBuff.ring`), on which `push_frame` is a push
and `read_frame` a pop, with `NULL` for nothing.

* `pendingFrames_eq`: `pending_frames` is the number of frames in the buffer.
* `frames_fifo`: **the buffer is a bounded queue with an exact count**, whatever the order of calls.
-/

namespace Zeos

open RingBuffer

variable {r : FrameBuff} {mat : Word} {ops : List (Op Word)}

/-! ### The ring -/

def FrameBuff.ring (r : FrameBuff) : Circular Word := ⟨r.frameBuff, r.head, r.tail, r.isFullFlag⟩

/-- The frames pending in the buffer, the oldest first. -/
def FrameBuff.frames (r : FrameBuff) : List Word := r.ring.toList frameBuffSize

theorem FrameBuff.ring_inj {r' : FrameBuff} (h : r.ring = r'.ring) : r = r' := by
  cases r
  cases r'
  injection h with h1 h2 h3 h4
  subst h1 h2 h3 h4
  rfl

theorem pushFrame_ring : (r.pushFrame mat).ring = r.ring.push frameBuffSize mat := by
  unfold FrameBuff.pushFrame Circular.push
  cases hf : r.isFullFlag with
  | true =>
    rw [if_neg (by decide), if_pos (show r.ring.full = true from hf)]
  | false =>
    rw [if_pos rfl, if_neg (show ¬ r.ring.full = true by simp [FrameBuff.ring, hf])]
    by_cases he : (r.head + 1) % frameBuffSize = r.tail
    · simp [FrameBuff.ring, he]
    · simp [FrameBuff.ring, he, hf]

theorem readFrame_ring : r.readFrame.1 = (r.ring.pop frameBuffSize).1.getD null ∧
    r.readFrame.2.ring = (r.ring.pop frameBuffSize).2 := by
  unfold FrameBuff.readFrame Circular.pop
  by_cases he : r.head = r.tail ∧ r.isFullFlag = false
  · rw [if_pos he, if_pos (show r.ring.head = r.ring.tail ∧ r.ring.full = false from he)]
    exact ⟨rfl, rfl⟩
  · rw [if_neg he, if_neg (show ¬ (r.ring.head = r.ring.tail ∧ r.ring.full = false) from he)]
    exact ⟨rfl, rfl⟩

theorem frames_length : r.frames.length = r.ring.count frameBuffSize := Circular.length_toList

section

variable (hv : r.ring.Valid frameBuffSize)

include hv

/-- **`pending_frames` counts the frames.** -/
theorem pendingFrames_eq : r.pendingFrames = r.frames.length := by
  have h1 : r.tail < frameBuffSize := hv.tail_lt
  have hcount : r.ring.count frameBuffSize = if r.head < r.tail then r.head + frameBuffSize - r.tail
      else if r.tail < r.head then r.head - r.tail else if r.isFullFlag = true then frameBuffSize else 0 := rfl
  rw [frames_length, hcount]
  unfold FrameBuff.pendingFrames
  by_cases h2 : r.head < r.tail
  · rw [if_pos h2, if_pos h2]
    simp only [frameBuffSize] at *
    omega
  by_cases h3 : r.tail < r.head
  · rw [if_neg h2, if_pos h3, if_neg h2, if_pos h3]
    omega
  -- head and tail meet
  · rw [if_neg h2, if_neg h3, if_neg h2, if_neg h3]
    cases r.isFullFlag <;> rfl

theorem frames_le : r.frames.length ≤ frameBuffSize := frames_length ▸ hv.count_le

theorem pushFrame_frames (hc : r.frames.length < frameBuffSize) : (r.pushFrame mat).frames = r.frames ++ [mat] := by
  unfold FrameBuff.frames
  rw [pushFrame_ring, hv.push_toList mat (hv.full_false (frames_length ▸ hc))]

theorem pushFrame_full (hc : r.frames.length = frameBuffSize) : r.pushFrame mat = r := by
  apply FrameBuff.ring_inj
  rw [pushFrame_ring, hv.push_full mat (frames_length ▸ hc)]

theorem readFrame_empty (he : r.frames = []) : r.readFrame = (null, r) := by
  have h0 : r.ring.count frameBuffSize = 0 := by rw [← frames_length, he, List.length_nil]
  have hp := hv.pop_empty h0
  obtain ⟨h1, h2⟩ := readFrame_ring (r := r)
  rw [hp] at h1 h2
  exact Prod.ext h1 (FrameBuff.ring_inj h2)

theorem readFrame_frames {fs : List Word} (he : r.frames = mat :: fs) :
    ∃ r', r.readFrame = (mat, r') ∧ r'.frames = fs := by
  have h0 : r.ring.count frameBuffSize ≠ 0 := by
    rw [← frames_length, he]
    simp
  obtain ⟨y, hy, hl⟩ := hv.pop_toList h0
  obtain ⟨h1, h2⟩ := readFrame_ring (r := r)
  have hfs : y :: (r.ring.pop frameBuffSize).2.toList frameBuffSize = mat :: fs := hl.symm.trans he
  injection hfs with hyc hfs
  refine ⟨r.readFrame.2, Prod.ext (h1.trans (by rw [hy, hyc]; rfl)) rfl, ?_⟩
  rw [FrameBuff.frames, h2, hfs]

theorem pushFrame_valid : (r.pushFrame mat).ring.Valid frameBuffSize := pushFrame_ring ▸ hv.push mat

theorem readFrame_valid : r.readFrame.2.ring.Valid frameBuffSize := readFrame_ring.2 ▸ hv.pop

/-- A `read_frame` that changes nothing and gives `NULL` found nothing. -/
theorem readFrame_eq_iff : r.readFrame = (null, r) ↔ r.frames = [] := by
  refine ⟨fun h => ?_, readFrame_empty hv⟩
  cases he : r.frames with
  | nil => rfl
  | cons mat fs =>
    obtain ⟨r', hr, hfs⟩ := readFrame_frames hv he
    rw [h] at hr
    cases hr
    exact absurd (congrArg List.length (hfs.symm.trans he)) (by simp)

end

/-! ### Sequences of calls -/

/-- The buffer after `ops`, latest first: a push is a `push_frame`, a pop a `read_frame`. -/
def framesAfter : List (Op Word) → FrameBuff
  | [] => {}
  | .push mat :: ops => (framesAfter ops).pushFrame mat
  | .pop :: ops => (framesAfter ops).readFrame.2

/-- The frames that found room, in the order pushed. -/
def framesAccepted : List (Op Word) → List Word
  | [] => []
  | .push mat :: ops => framesAccepted ops ++ if (framesAfter ops).frames.length < frameBuffSize then [mat] else []
  | .pop :: ops => framesAccepted ops

/-- What the reads of a buffer with frames in it gave, in the order read. -/
def framesRead : List (Op Word) → List Word
  | [] => []
  | .push _ :: ops => framesRead ops
  | .pop :: ops => framesRead ops ++ if (framesAfter ops).frames = [] then [] else [(framesAfter ops).readFrame.1]

theorem framesAfter_valid (ops : List (Op Word)) : (framesAfter ops).ring.Valid frameBuffSize := by
  induction ops with
  | nil => exact ⟨by decide, by decide, fun _ => rfl⟩
  | cons op ops ih =>
    cases op with
    | push mat => exact pushFrame_valid ih
    | pop => exact readFrame_valid ih

theorem frames_order (ops : List (Op Word)) : framesAccepted ops = framesRead ops ++ (framesAfter ops).frames := by
  induction ops with
  | nil => rfl
  | cons op ops ih =>
    have hv := framesAfter_valid ops
    cases op with
    | push mat =>
      show framesAccepted ops ++ (if (framesAfter ops).frames.length < frameBuffSize then [mat] else []) =
        framesRead ops ++ ((framesAfter ops).pushFrame mat).frames
      rw [ih]
      by_cases hlt : (framesAfter ops).frames.length < frameBuffSize
      · rw [if_pos hlt, pushFrame_frames hv hlt, List.append_assoc]
      · rw [if_neg hlt, pushFrame_full hv (le_antisymm (frames_le hv) (not_lt.1 hlt)), List.append_nil]
    | pop =>
      show framesAccepted ops = framesRead ops ++ (if (framesAfter ops).frames = [] then [] else
        [(framesAfter ops).readFrame.1]) ++ (framesAfter ops).readFrame.2.frames
      rw [ih]
      cases he : (framesAfter ops).frames with
      | nil => rw [if_pos rfl, readFrame_empty hv he, he, List.append_nil, List.append_nil]
      | cons mat fs =>
        obtain ⟨r', hr, hfs⟩ := readFrame_frames hv he
        rw [if_neg (by simp), hr, hfs, List.append_assoc]
        rfl

/-- Only frames that were pushed are pending. -/
theorem pushed_of_mem : ∀ {ops : List (Op Word)}, mat ∈ (framesAfter ops).frames → Op.push mat ∈ ops
  | [], h => by cases h
  | .push mat' :: ops, h => by
    have hv := framesAfter_valid ops
    unfold framesAfter at h
    by_cases hlt : (framesAfter ops).frames.length < frameBuffSize
    · rw [pushFrame_frames hv hlt, List.mem_append, List.mem_singleton] at h
      rcases h with h | rfl
      · exact List.mem_cons_of_mem _ (pushed_of_mem h)
      · exact List.mem_cons_self
    · rw [pushFrame_full hv (le_antisymm (frames_le hv) (not_lt.1 hlt))] at h
      exact List.mem_cons_of_mem _ (pushed_of_mem h)
  | .pop :: ops, h => by
    have hv := framesAfter_valid ops
    unfold framesAfter at h
    refine List.mem_cons_of_mem _ (pushed_of_mem ?_)
    cases he : (framesAfter ops).frames with
    | nil =>
      rw [readFrame_empty hv he, he] at h
      exact h
    | cons mat' fs =>
      obtain ⟨r', hr, hfs⟩ := readFrame_frames hv he
      rw [hr, hfs] at h
      exact List.mem_cons_of_mem _ h

/-- **The frame buffer is a bounded queue with an exact count.** After any sequence of calls: a push
appends its frame, or changes nothing when there are `BUFF_SIZE` frames; `read_frame` gives `NULL` and
changes nothing exactly when nothing is pending, which the `NULL` alone tells when no `NULL` was
pushed, and else the oldest frame; the frames taken in are those read and then those pending; and
`pending_frames` is the number of the former less that of the reads that found one, from 0 to
`BUFF_SIZE`. -/
theorem frames_fifo (ops : List (Op Word)) :
    let r := framesAfter ops
    (∀ mat, r.frames.length < frameBuffSize → (r.pushFrame mat).frames = r.frames ++ [mat]) ∧
    (∀ mat, r.frames.length = frameBuffSize → r.pushFrame mat = r) ∧
    (r.readFrame = (null, r) ↔ r.frames = []) ∧
    ((∀ mat, Op.push mat ∈ ops → mat ≠ null) → (r.readFrame.1 = null ↔ r.frames = [])) ∧
    (∀ mat fs, r.frames = mat :: fs → ∃ r', r.readFrame = (mat, r') ∧ r'.frames = fs) ∧
    framesAccepted ops = framesRead ops ++ r.frames ∧
    r.pendingFrames = (framesAccepted ops).length - (framesRead ops).length ∧
    0 ≤ r.pendingFrames ∧ r.pendingFrames ≤ frameBuffSize := by
  intro r
  have hv : r.ring.Valid frameBuffSize := framesAfter_valid ops
  have horder := frames_order ops
  have hcount := pendingFrames_eq hv
  have hle := frames_le hv
  have hlen : (framesAccepted ops).length = (framesRead ops).length + r.frames.length := by
    rw [horder, List.length_append]
  refine ⟨fun mat => pushFrame_frames hv, fun mat => pushFrame_full hv, readFrame_eq_iff hv, fun hn => ?_,
    fun mat fs => readFrame_frames hv, horder, ?_, ?_, ?_⟩
  · refine ⟨fun h => ?_, fun h => by rw [readFrame_empty hv h]⟩
    cases he : r.frames with
    | nil => rfl
    | cons mat fs =>
      obtain ⟨r', hr, -⟩ := readFrame_frames hv he
      rw [hr] at h
      have hmem : mat ∈ r.frames := by
        rw [he]
        exact List.mem_cons_self
      exact absurd h (hn mat (pushed_of_mem hmem))
  · omega
  · omega
  · omega

end Zeos
