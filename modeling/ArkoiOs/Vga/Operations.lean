import Mathlib.Algebra.Group.Nat.Defs
import Mathlib.Order.Nat
import ArkoiOs.Vga.Model

/-!
# What the operations of the screen do

The loops over cells as changes of the whole frame buffer: `vga_scroll` moves
each cell up by a row and blanks the last row, `vga_clear` blanks every cell.
All of it stays inside the frame buffer.
-/

namespace ArkoiOs

/-! ## Cells -/

/-- The character byte of an entry is the character, with its sign or without. -/
theorem vgaEntry_toUInt8 (character color : UInt8) :
    (vgaEntry character color).toUInt8 = character := by
  have low : character.toInt8.toInt16.toUInt16.toUInt8 = character := by
    apply UInt8.toBitVec_inj.1
    change (character.toBitVec.signExtend 16).setWidth 8 = character.toBitVec
    refine BitVec.eq_of_getLsbD_eq fun i hi => ?_
    rw [BitVec.getLsbD_setWidth, BitVec.getLsbD_signExtend, decide_eq_true hi,
      decide_eq_true (by omega), if_pos hi, Bool.true_and, Bool.true_and]
  have high : (color.toUInt16 <<< 8).toUInt8 = 0 := by
    apply UInt8.toNat_inj.1
    rw [UInt16.toNat_toUInt8, UInt16.toNat_shiftLeft, Nat.shiftLeft_eq]
    change color.toUInt16.toNat * 256 % 65536 % 256 = 0
    omega
  rw [vgaEntry, UInt16.toUInt8_or, low, high, UInt8.or_zero]

section Cells

variable {vga : Vga} {index : UInt16}

theorem readCell_ok (inside : index.toNat < vgaWidth * vgaHeight) :
    readCell index vga = .ok (vga.memory index.toNat) vga := by
  unfold readCell
  rw [Machine.bind_of_ok (Machine.get_run _), if_pos inside]
  rfl

theorem writeCell_ok (inside : index.toNat < vgaWidth * vgaHeight) (entry : UInt16) :
    writeCell index entry vga =
      .ok () { vga with memory := Function.update vga.memory index.toNat entry } := by
  unfold writeCell
  rw [if_pos inside]
  rfl

end Cells

/-- Indices of the frame buffer fit in 16 bits. -/
theorem cellIndex_toNat {index : ℕ} (inside : index < 2000) : index.toUInt16.toNat = index := by
  rw [Nat.toUInt16_eq, UInt16.toNat_ofNat']
  exact Nat.mod_eq_of_lt (by omega)

/-- The position of a row and a column that are on the screen. -/
theorem position_toNat {row column : UInt32} (hr : row.toNat < 25) (hc : column.toNat < 80) :
    (row * vgaWidth.toUInt32 + column).toUInt16.toNat = row.toNat * 80 + column.toNat := by
  have product : (row * vgaWidth.toUInt32).toNat = row.toNat * 80 := by
    rw [UInt32.toNat_mul]
    exact Nat.mod_eq_of_lt (by change row.toNat * 80 < _; omega)
  rw [UInt32.toNat_toUInt16, UInt32.toNat_add, product]
  omega

/-! ## Loops -/

/-- A loop over words that leads from each state to the next. -/
theorem forWords_ok {body : UInt16 → KernelM Vga Unit} (start : UInt16) (bound rounds : ℕ)
    (state : ℕ → Vga) (last : start.toNat + rounds = bound) (fits : bound < 2 ^ 16)
    (round : ∀ (k : ℕ) (i : UInt16), k < rounds → i.toNat = start.toNat + k →
      body i (state k) = .ok () (state (k + 1))) :
    forWords start bound body (state 0) = .ok () (state rounds) := by
  have index : ∀ k ≤ rounds, (start + UInt16.ofNat k).toNat = start.toNat + k := by
    intro k hk
    rw [UInt16.toNat_add, UInt16.toNat_ofNat', Nat.add_mod_mod]
    exact Nat.mod_eq_of_lt (by omega)
  have first : start + UInt16.ofNat 0 = start := UInt16.add_zero start
  have run : Machine.forLoop Fault.hang (fun i : UInt16 => i.toNat < bound) (· + 1) body
      (bound + 1) (start + UInt16.ofNat 0) (state 0) = .ok () (state rounds) := by
    refine Machine.forLoop_ok (fun k => start + UInt16.ofNat k) state (by omega) ?_ ?_ ?_ ?_
    · intro k hk
      exact decide_eq_true (by rw [index k hk.le]; omega)
    · intro k hk
      exact round k _ hk (index k hk.le)
    · intro k hk
      apply UInt16.toNat_inj.1
      rw [index (k + 1) hk, UInt16.toNat_add, index k hk.le]
      exact Nat.mod_eq_of_lt (by change start.toNat + k + 1 < _; omega)
    · exact decide_eq_false (by rw [index rounds le_rfl]; omega)
  rw [first] at run
  exact run

/-! ## The cursor -/

/-- What is written to the ports for a position. -/
def programCursor (position : UInt16) : List (UInt16 × UInt8) :=
  [(vgaCrtcIndexPort, vgaCrtcCursorLow), (vgaCrtcDataPort, (position &&& 0xFF).toUInt8),
    (vgaCrtcIndexPort, vgaCrtcCursorHigh), (vgaCrtcDataPort, ((position >>> 8) &&& 0xFF).toUInt8)]

/-- On the screen `vga_set_cursor` moves the cursor of the driver and of the
controller. -/
theorem vgaSetCursor_ok (vga : Vga) {row column : UInt32} (hr : row.toNat < 25)
    (hc : column.toNat < 80) :
    vgaSetCursor row.toUInt16 column.toUInt16 vga =
      .ok () { vga with
        row := row
        column := column
        ports := vga.ports ++
          programCursor (row * vgaWidth.toUInt32 + column).toUInt16 } := by
  have same : ∀ word : UInt32, word.toNat < 2 ^ 16 → word.toUInt16.toUInt32 = word := by
    intro word small
    apply UInt32.toNat_inj.1
    rw [UInt16.toNat_toUInt32, UInt32.toNat_toUInt16]
    exact Nat.mod_eq_of_lt small
  have on_screen : ¬(row.toUInt16.toNat ≥ vgaHeight ∨ column.toUInt16.toNat ≥ vgaWidth) := by
    rw [UInt32.toNat_toUInt16, UInt32.toNat_toUInt16]
    change ¬(25 ≤ _ ∨ 80 ≤ _)
    omega
  unfold vgaSetCursor
  rw [if_neg on_screen, same row (by omega), same column (by omega)]
  rw [Machine.bind_of_ok (Machine.modify_run _ _), Machine.bind_of_ok (Machine.get_run _)]
  simp only [outb]
  rw [Machine.bind_of_ok (Machine.modify_run _ _), Machine.bind_of_ok (Machine.modify_run _ _),
    Machine.bind_of_ok (Machine.modify_run _ _), Machine.modify_run]
  simp only [programCursor, List.append_assoc, List.singleton_append]
  rfl

/-! ## Scrolling and clearing -/

/-- The first `n` cells take what is one row below them. -/
def cellsUp (memory : ℕ → UInt16) (n : ℕ) : ℕ → UInt16 :=
  fun i => if i < n then memory (i + vgaWidth) else memory i

/-- `n` cells from `start` on take an entry. -/
def cellsFilled (memory : ℕ → UInt16) (start n : ℕ) (entry : UInt16) : ℕ → UInt16 :=
  fun i => if start ≤ i ∧ i < start + n then entry else memory i

theorem cellsUp_zero (memory : ℕ → UInt16) : cellsUp memory 0 = memory :=
  funext fun i => if_neg (Nat.not_lt_zero i)

/-- The cell one row below the next one has not changed yet. -/
theorem cellsUp_succ (memory : ℕ → UInt16) (n : ℕ) :
    Function.update (cellsUp memory n) n (cellsUp memory n (n + vgaWidth)) =
      cellsUp memory (n + 1) := by
  funext i
  simp only [cellsUp, Function.update_apply]
  grind

theorem cellsFilled_zero (memory : ℕ → UInt16) (start : ℕ) (entry : UInt16) :
    cellsFilled memory start 0 entry = memory :=
  funext fun i => if_neg (by omega)

theorem cellsFilled_succ (memory : ℕ → UInt16) (start n : ℕ) (entry : UInt16) :
    Function.update (cellsFilled memory start n entry) (start + n) entry =
      cellsFilled memory start (n + 1) entry := by
  funext i
  simp only [cellsFilled, Function.update_apply]
  grind

section Loops

variable (vga : Vga)

/-- One round of the copy in `vga_scroll`. -/
theorem Vga.copyCell_ok {y x : UInt16} {k j : ℕ} (hk : k < 24) (hj : j < vgaWidth)
    (hy : y.toNat = 1 + k) (hx : x.toNat = j) :
    (do
      let entry ← readCell (y.toNat * vgaWidth + x.toNat).toUInt16
      writeCell ((y.toNat - 1) * vgaWidth + x.toNat).toUInt16 entry : KernelM Vga Unit)
        { vga with memory := cellsUp vga.memory (k * vgaWidth + j) } =
      .ok () { vga with memory := cellsUp vga.memory (k * vgaWidth + (j + 1)) } := by
  have below : j < 80 := hj
  have original : (y.toNat * vgaWidth + x.toNat).toUInt16.toNat =
      k * vgaWidth + j + vgaWidth := by
    rw [hy, hx, cellIndex_toNat (by change (1 + k) * 80 + j < 2000; omega)]
    change (1 + k) * 80 + j = k * 80 + j + 80
    omega
  have new : ((y.toNat - 1) * vgaWidth + x.toNat).toUInt16.toNat = k * vgaWidth + j := by
    rw [hy, hx, Nat.add_sub_cancel_left,
      cellIndex_toNat (by change k * 80 + j < 2000; omega)]
  rw [Machine.bind_of_ok (readCell_ok (by
      rw [original]
      change k * 80 + j + 80 < 2000
      omega)), original, writeCell_ok (by
      rw [new]
      change k * 80 + j < 2000
      omega), new]
  simp only
  rw [cellsUp_succ]
  rfl

/-- A loop that blanks cells one after another. -/
theorem Vga.fill_ok (start n : ℕ) (index : UInt16 → UInt16) (fits : n < 2 ^ 16)
    (inside : start + n ≤ 2000) (index_eq : ∀ x : UInt16, x.toNat < n →
      (index x).toNat = start + x.toNat) :
    (forWords 0 n fun x => do
      let vga ← get
      writeCell (index x) (vgaEntry 0x20 vga.currentColor)) vga =
      .ok () { vga with
        memory := cellsFilled vga.memory start n (vgaEntry 0x20 vga.currentColor) } := by
  have round : ∀ (j : ℕ) (x : UInt16), j < n → x.toNat = UInt16.toNat 0 + j →
      (do
        let vga ← get
        writeCell (index x) (vgaEntry 0x20 vga.currentColor))
          { vga with
            memory := cellsFilled vga.memory start j (vgaEntry 0x20 vga.currentColor) } =
        .ok () { vga with
          memory := cellsFilled vga.memory start (j + 1) (vgaEntry 0x20 vga.currentColor) } := by
    intro j x hj hx
    have counter : x.toNat = j := hx.trans (Nat.zero_add j)
    have cell : (index x).toNat = start + j := by
      rw [index_eq x (by omega), counter]
    rw [Machine.bind_of_ok (Machine.get_run _), writeCell_ok (by
      rw [cell]
      change start + j < 2000
      omega), cell]
    simp only
    rw [cellsFilled_succ]
  have filled := forWords_ok 0 n n
    (fun j => { vga with
      memory := cellsFilled vga.memory start j (vgaEntry 0x20 vga.currentColor) })
    (Nat.zero_add n) fits round
  simp only [cellsFilled_zero] at filled
  exact filled

/-- `vga_scroll` moves the rows up, blanks the last one and puts the cursor on it. -/
theorem vgaScroll_ok (hc : vga.column.toNat < 80) :
    vgaScroll vga = .ok () { vga with
      memory := cellsFilled (cellsUp vga.memory 1920) 1920 80 (vgaEntry 0x20 vga.currentColor)
      row := 24
      ports := vga.ports ++
        programCursor (24 * vgaWidth.toUInt32 + vga.column).toUInt16 } := by
  have row : ∀ (k : ℕ) (y : UInt16), k < 24 → y.toNat = UInt16.toNat 1 + k →
      (forWords 0 vgaWidth fun x => do
        let entry ← readCell (y.toNat * vgaWidth + x.toNat).toUInt16
        writeCell ((y.toNat - 1) * vgaWidth + x.toNat).toUInt16 entry)
          { vga with memory := cellsUp vga.memory (k * vgaWidth) } =
        .ok () { vga with memory := cellsUp vga.memory ((k + 1) * vgaWidth) } := by
    intro k y hk hy
    have cells := forWords_ok 0 vgaWidth vgaWidth
      (fun j => { vga with memory := cellsUp vga.memory (k * vgaWidth + j) }) rfl (by decide)
      fun j x hj hx => vga.copyCell_ok hk hj hy (hx.trans (Nat.zero_add j))
    rw [Nat.succ_mul]
    exact cells
  have copied := forWords_ok 1 vgaHeight 24
    (fun k => { vga with memory := cellsUp vga.memory (k * vgaWidth) }) rfl (by decide) row
  simp only [Nat.zero_mul, cellsUp_zero] at copied
  have blanked := Vga.fill_ok { vga with memory := cellsUp vga.memory 1920 } 1920 80
    (fun x => ((vgaHeight - 1) * vgaWidth + x.toNat).toUInt16) (by decide) (by decide)
    fun x hx => cellIndex_toNat (by change 1920 + x.toNat < 2000; omega)
  have last : (24 : UInt32).toNat < 25 := Nat.lt_succ_self 24
  have cursor := vgaSetCursor_ok
    { vga with
      memory := cellsFilled (cellsUp vga.memory 1920) 1920 80 (vgaEntry 0x20 vga.currentColor) }
    last hc
  exact (Machine.bind_of_ok copied).trans ((Machine.bind_of_ok blanked).trans cursor)

/-- `vga_clear` blanks every cell and puts the cursor at the origin. -/
theorem vgaClear_ok :
    vgaClear vga = .ok () { vga with
      memory := cellsFilled vga.memory 0 2000 (vgaEntry 0x20 vga.currentColor)
      row := 0
      column := 0
      ports := vga.ports ++ programCursor 0 } := by
  have blanked := Vga.fill_ok vga 0 2000 id (by decide) (by decide)
    fun x _ => (Nat.zero_add x.toNat).symm
  have top : (0 : UInt32).toNat < 25 := Nat.succ_pos 24
  have left : (0 : UInt32).toNat < 80 := Nat.succ_pos 79
  exact (Machine.bind_of_ok blanked).trans (vgaSetCursor_ok _ top left)

end Loops

end ArkoiOs
