import Zeos.Entry

/-!
# The frame buffer of the user program (`user.c`)

The game hands frames to the drawing thread through a circular buffer of pointers to
pages, `frame_buff`.
-/

namespace Zeos

open Execution

/-- `BUFF_SIZE` of `user.c`. -/
@[simp] abbrev frameBuffSize : ℕ := 64

def null : Word := 0

/-- `frame_buff` and its variables. -/
structure FrameBuff where
  frameBuff : ℕ → Word := fun _ => null
  head : ℕ := 0
  tail : ℕ := 0
  isFullFlag : Bool := false

namespace FrameBuff

variable (r : FrameBuff)

def pendingFrames : ℤ :=
  if r.head < r.tail then r.head + frameBuffSize - r.tail
  else if r.tail < r.head then r.head - r.tail
  else if r.isFullFlag = true then frameBuffSize
  else 0

def pushFrame (mat : Word) : FrameBuff :=
  if r.isFullFlag = false then
    let r := { r with frameBuff := Function.update r.frameBuff r.head mat }
    let r := { r with head := (r.head + 1) % frameBuffSize }
    if r.head = r.tail then { r with isFullFlag := true } else r
  else r

def readFrame : Word × FrameBuff :=
  if r.head = r.tail ∧ r.isFullFlag = false then (null, r)
  else
    let tmp := r.frameBuff r.tail
    (tmp, { r with tail := (r.tail + 1) % frameBuffSize, isFullFlag := false })

end FrameBuff

/-! ### The two threads -/

/-- The game and the drawing thread: the kernel under them, the buffer between them, and of their
past the pages that `alloc` gave them and no `dealloc` of theirs has taken back. -/
structure Screen where
  kernel : Kernel
  ring : FrameBuff
  held : List Word

inductive ScreenEvent
  /-- What `welcome`, `thread_push`, `game_win` or `game_over` does between its `sem_wait(0)` and its
  `sem_signal(0)`. -/
  | produce
  /-- The same of an iteration of `thread_dump`. -/
  | dump
  /-- Anything else that the kernel does. -/
  | other
  deriving DecidableEq, Repr

/-- None of the calls on memory: behind the `createthread` of `setup` the user program makes them
in its sections only. -/
def Quiet (tr : KTrace) : Prop := ∀ t ∈ tr, t.event.isMemory = false

/-- The sections of the two threads, whose page table is `T`. -/
inductive ScreenStep (M : Machine) (T : Slot) : Screen → ScreenEvent → Screen → Prop
  /-- `mat = alloc(); …; push_frame(mat);`. When `alloc` fails its wrapper gives `-1`, and the drawing
  on that does not come back. -/
  | produce {s u b o k mat tr k'} : getPT s.kernel s.kernel.current = T →
    Step s.kernel (.sysenter .alloc u b) o k → o.ret = some mat → 0 ≤ mat.toInt →
    Path (kernelSystem M) k tr k' → Quiet tr →
    ScreenStep M T s .produce ⟨k', s.ring.pushFrame mat, mat :: s.held⟩
  | dumpNone {s r} : s.ring.readFrame = (null, r) → ScreenStep M T s .dump { s with ring := r }
  /-- `dump_screen(tmp); …; dealloc(tmp);`, whatever they return. -/
  | dump {s tmp r u b o k tr k' u' b' o' k''} : s.ring.readFrame = (tmp, r) → tmp ≠ null →
    Step s.kernel (.sysenter (.dumpScreen tmp) u b) o k → Path (kernelSystem M) k tr k' → Quiet tr →
    getPT k' k'.current = T → Step k' (.sysenter (.dealloc tmp) u' b') o' k'' →
    ScreenStep M T s .dump ⟨k'', r, if o'.ret = some 0 then s.held.erase tmp else s.held⟩
  | other {s e o k} : Step s.kernel e o k → e.isMemory = false → ScreenStep M T s .other { s with kernel := k }

/-- **The two threads**, from the first section on. -/
def screenSystem (M : Machine) (T : Slot) : System Screen ScreenEvent Unit where
  init s := (∃ tr, KRun M tr s.kernel) ∧ s.ring = {} ∧ s.held = []
  step s e _ s' := ScreenStep M T s e s'

end Zeos
