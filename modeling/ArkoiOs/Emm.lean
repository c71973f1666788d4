import ArkoiOs.Kpanic

/-!
# Early memory manager

`emm_alloc` moves a cursor through the early heap of the kernel image.
-/

namespace ArkoiOs

/-- `g_cursor` and `g_end`. -/
structure Emm where
  cursor : UInt32
  end_ : UInt32
  deriving DecidableEq, Repr

/-- `emm_alloc`; `next_cursor` is a 32-bit sum. -/
def emmAlloc (size : UInt32) : KernelM Emm UInt32 := do
  let emm ← get
  let currentCursor := emm.cursor
  let nextCursor := currentCursor + size
  if nextCursor > emm.end_ then
    kpanic "Early boot allocator exhausted while allocating %u bytes" [size]
  else do
    set { emm with cursor := nextCursor }
    pure currentCursor

/-- With room for the size, `emm_alloc` returns the cursor and moves it. -/
theorem emmAlloc_of_room {emm : Emm} {size : UInt32} (room : emm.cursor + size ≤ emm.end_) :
    emmAlloc size emm = .ok emm.cursor { emm with cursor := emm.cursor + size } := by
  unfold emmAlloc
  rw [Machine.bind_of_ok (Machine.get_run emm)]
  simp only [if_neg (UInt32.not_lt.2 room)]
  rfl

/-- Without room it panics. -/
theorem emmAlloc_exhausted {emm : Emm} {size : UInt32} (full : emm.end_ < emm.cursor + size) :
    emmAlloc size emm = .error (.panic
      "Early boot allocator exhausted while allocating %u bytes" [size]) emm := by
  unfold emmAlloc
  rw [Machine.bind_of_ok (Machine.get_run emm)]
  simp only [if_pos full]
  rfl

end ArkoiOs
