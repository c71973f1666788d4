import Mathlib.Data.List.Basic
import ArkoiOs.Vga.Operations

/-!
# The screen shows the end of the document

All that is written forms a document without a bound on its rows; the screen is a
window on its last rows.  A row ends at a newline and behind its last column, and
where the document outgrows the window the window moves down by one row.
-/

namespace ArkoiOs

/-! ## Documents -/

/-- The character at a row and a column, a space where there is none. -/
def cellAt (rows : List (List UInt8)) (row column : ℕ) : UInt8 :=
  ((rows[row]?.getD [])[column]?).getD 0x20

/-- Rows that have ended, and the row the end of the document is on. -/
structure Document where
  ended : List (List UInt8)
  line : List UInt8
  short : line.length < vgaWidth

namespace Document

/-- The document nothing was written to. -/
def blank : Document := ⟨[], [], by decide⟩

/-- Go to a new row. -/
def newRow (ended : List (List UInt8)) (line : List UInt8) : Document :=
  ⟨ended ++ [line], [], by decide⟩

/-- Write one character. -/
def write (d : Document) (character : UInt8) : Document :=
  if character = 0x0A then newRow d.ended d.line
  else if h : d.line.length + 1 < vgaWidth then
    ⟨d.ended, d.line ++ [character], by rw [List.length_append]; exact h⟩
  else newRow d.ended (d.line ++ [character])

/-- Write a text. -/
def ofText (text : List UInt8) : Document := text.foldl write blank

/-- A newline behind a full row leaves an empty row. -/
example : (ofText (List.replicate 80 0x41 ++ [0x0A])).ended = [List.replicate 80 0x41, []] := by
  decide +kernel

/-- All rows. -/
def rows (d : Document) : List (List UInt8) := d.ended ++ [d.line]

/-- The first row of the window: the last 25 rows, or all of them from the first
row on. -/
def top (d : Document) : ℕ := d.ended.length + 1 - vgaHeight

end Document

/-! ## The screen as a window -/

namespace Vga

/-- The characters on the screen are those of the rows from `top` on. -/
def ShowsRows (vga : Vga) (rows : List (List UInt8)) (top : ℕ) : Prop :=
  ∀ y < vgaHeight, ∀ x < vgaWidth,
    (vga.memory (y * vgaWidth + x)).toUInt8 = cellAt rows (top + y) x

/-- The screen shows the last rows of the document, with the cursor at its end. -/
structure Shows (vga : Vga) (d : Document) : Prop where
  cells : vga.ShowsRows d.rows d.top
  row : d.ended.length = d.top + vga.row.toNat
  column : d.line.length = vga.column.toNat
  row_lt : vga.row.toNat < vgaHeight
  column_lt : vga.column.toNat < vgaWidth

end Vga

/-! ## Calls -/

/-- A call of the interface; a string has a terminator. -/
inductive VgaCall
  | setColor (foreground background : VgaColor)
  | writeChar (character : UInt8)
  | writeString (data : List UInt8) (terminated : 0 ∈ data)

namespace VgaCall

/-- Run a call. -/
def run : VgaCall → KernelM Vga Unit
  | setColor foreground background => vgaSetColor foreground background
  | writeChar character => vgaWriteChar character
  | writeString data _ => vgaWriteString data

/-- The characters a call writes. -/
def text : VgaCall → List UInt8
  | setColor _ _ => []
  | writeChar character => [character]
  | writeString data _ => data.takeWhile (· ≠ 0)

end VgaCall

/-! ## Cells of rows -/

section Cells

variable (rows ended : List (List UInt8)) (line : List UInt8) (character : UInt8) {row column : ℕ}

/-- Below its rows a document is blank. -/
theorem cellAt_of_length_le (below : rows.length ≤ row) : cellAt rows row column = 0x20 := by
  rw [cellAt, List.getElem?_eq_none below]
  rfl

/-- An empty row looks like no row. -/
theorem cellAt_concat_nil : cellAt (rows ++ [[]]) row column = cellAt rows row column := by
  rcases Nat.lt_trichotomy row rows.length with before | rfl | behind
  · rw [cellAt, cellAt, List.getElem?_append_left before]
  · rw [cellAt_of_length_le rows le_rfl, cellAt, List.getElem?_concat_length]
    rfl
  · rw [cellAt_of_length_le rows behind.le, cellAt_of_length_le]
    rw [List.length_append]
    exact behind

/-- One more character in the last row changes one cell. -/
theorem cellAt_concat_concat :
    cellAt (ended ++ [line ++ [character]]) row column =
      if row = ended.length ∧ column = line.length then character
      else cellAt (ended ++ [line]) row column := by
  rcases Nat.lt_trichotomy row ended.length with before | rfl | behind
  · rw [if_neg fun h => before.ne h.1, cellAt, cellAt, List.getElem?_append_left before,
      List.getElem?_append_left before]
  · rw [cellAt, cellAt, List.getElem?_concat_length, List.getElem?_concat_length]
    simp only [true_and, Option.getD_some]
    rcases Nat.lt_trichotomy column line.length with left | rfl | right
    · rw [if_neg left.ne, List.getElem?_append_left left]
    · rw [if_pos rfl, List.getElem?_concat_length]
      rfl
    · rw [if_neg right.ne', List.getElem?_eq_none right.le, List.getElem?_eq_none (by
        rw [List.length_append]
        exact right)]
  · rw [if_neg fun h => behind.ne' h.1, cellAt_of_length_le, cellAt_of_length_le]
    · rw [List.length_append]
      exact behind
    · rw [List.length_append]
      exact behind

end Cells

/-! ## The screen follows the document -/

namespace Vga

variable {vga : Vga} {rows ended : List (List UInt8)} {line : List UInt8} {top : ℕ}

/-- After a scroll the window has moved down by one row. -/
theorem ShowsRows.scroll {vga' : Vga} {entry : UInt16} (h : vga.ShowsRows rows top)
    (space : entry.toUInt8 = 0x20) (short : rows.length ≤ top + vgaHeight)
    (memory : vga'.memory = cellsFilled (cellsUp vga.memory 1920) 1920 80 entry) :
    vga'.ShowsRows rows (top + 1) := by
  intro y hy x hx
  have width : x < 80 := hx
  have height : y < 25 := hy
  rw [memory, cellsFilled]
  rcases Nat.lt_or_ge y 24 with upper | last
  · rw [if_neg (by change ¬(1920 ≤ y * 80 + x ∧ _); omega), cellsUp,
      if_pos (by change y * 80 + x < 1920; omega)]
    have below := h (y + 1) (by change y + 1 < 25; omega) x hx
    rw [Nat.succ_mul] at below
    rw [Nat.add_right_comm, below]
    congr 1
    omega
  · rw [if_pos (by change 1920 ≤ y * 80 + x ∧ y * 80 + x < 1920 + 80; omega), space,
      cellAt_of_length_le]
    have bound : rows.length ≤ top + 25 := short
    omega

/-- Writing a character at the end of the last row. -/
theorem ShowsRows.write {vga' : Vga} {entry : UInt16} (h : vga.ShowsRows (ended ++ [line]) top)
    (row : ended.length = top + vga.row.toNat) (column : line.length = vga.column.toNat)
    (column_lt : vga.column.toNat < vgaWidth)
    (memory : vga'.memory = Function.update vga.memory
      (vga.row.toNat * vgaWidth + vga.column.toNat) entry) :
    vga'.ShowsRows (ended ++ [line ++ [entry.toUInt8]]) top := by
  intro y hy x hx
  have width : x < 80 := hx
  have inside : vga.column.toNat < 80 := column_lt
  rw [memory, Function.update_apply, cellAt_concat_concat, ← h y hy x hx]
  have place : y * vgaWidth + x = vga.row.toNat * vgaWidth + vga.column.toNat ↔
      top + y = ended.length ∧ x = line.length := by
    change y * 80 + x = vga.row.toNat * 80 + vga.column.toNat ↔ _
    omega
  simp only [place]
  split <;> rfl

theorem ShowsRows.newRow (h : vga.ShowsRows rows top) : vga.ShowsRows (rows ++ [[]]) top := by
  intro y hy x hx
  rw [cellAt_concat_nil]
  exact h y hy x hx

/-- Going to the next row, with a scroll where the screen ends. -/
theorem nextRow_ok (cells : vga.ShowsRows (ended ++ [line]) top)
    (row : ended.length = top + vga.row.toNat) (row_lt : vga.row.toNat < vgaHeight)
    (column : vga.column = 0) (top_eq : top = ended.length + 1 - vgaHeight) :
    ∃ vga', nextRow vga = .ok () vga' ∧ vga'.Shows (.newRow ended line) := by
  have height : vga.row.toNat < 25 := row_lt
  have window : top = ended.length + 1 - 25 := top_eq
  have next : (vga.row + 1).toNat = vga.row.toNat + 1 := by
    rw [UInt32.toNat_add]
    exact Nat.mod_eq_of_lt (by change vga.row.toNat + 1 < _; omega)
  have total : (ended ++ [line]).length = ended.length + 1 := by
    rw [List.length_append, List.length_singleton]
  have left : (vga.column).toNat < 80 := by rw [column]; decide
  unfold nextRow
  rw [Machine.bind_of_ok (Machine.modify_run _ _), Machine.bind_of_ok (Machine.get_run _)]
  rcases Nat.lt_or_ge (vga.row.toNat + 1) 25 with inside | last
  · -- the window stays on the first rows
    rw [if_neg (by change ¬25 ≤ (vga.row + 1).toNat; omega)]
    have same : (Document.newRow ended line).top = top := by
      change (ended ++ [line]).length + 1 - 25 = top
      omega
    refine ⟨_, rfl, ?_, ?_, ?_, ?_, left⟩
    · rw [same]
      exact cells.newRow
    · rw [same]
      change (ended ++ [line]).length = top + (vga.row + 1).toNat
      omega
    · rw [column]
      rfl
    · change (vga.row + 1).toNat < 25
      omega
  · rw [if_pos (by change 25 ≤ (vga.row + 1).toNat; omega),
      vgaScroll_ok { vga with row := vga.row + 1 } left]
    have down : (Document.newRow ended line).top = top + 1 := by
      change (ended ++ [line]).length + 1 - 25 = top + 1
      omega
    have bottom : (24 : UInt32).toNat < 25 := Nat.lt_succ_self 24
    refine ⟨_, rfl, ?_, ?_, ?_, bottom, left⟩
    · rw [down]
      refine ShowsRows.newRow (ShowsRows.scroll cells (vgaEntry_toUInt8 0x20 _) ?_ rfl)
      change (ended ++ [line]).length ≤ top + 25
      omega
    · rw [down]
      change (ended ++ [line]).length = top + 1 + 24
      omega
    · rw [column]
      rfl

/-- Programming the cursor where it is changes nothing on the screen. -/
theorem Shows.setCursor {d : Document} (h : vga.Shows d) :
    ∃ vga', (do
        let vga ← get
        vgaSetCursor vga.row.toUInt16 vga.column.toUInt16) vga = .ok () vga' ∧ vga'.Shows d :=
  ⟨_, vgaSetCursor_ok vga h.row_lt h.column_lt,
    h.cells, h.row, h.column, h.row_lt, h.column_lt⟩

/-- `vga_write_char` writes the character to the document. -/
theorem Shows.writeChar {d : Document} (h : vga.Shows d) (character : UInt8) :
    ∃ vga', vgaWriteChar character vga = .ok () vga' ∧ vga'.Shows (d.write character) := by
  rcases h with ⟨cells, row, column, row_lt, column_lt⟩
  have height : vga.row.toNat < 25 := row_lt
  have width : vga.column.toNat < 80 := column_lt
  unfold vgaWriteChar Document.write
  split
  · rw [Machine.bind_of_ok (Machine.modify_run _ _)]
    have start : ShowsRows { vga with column := 0 } (d.ended ++ [d.line]) d.top := cells
    exact nextRow_ok start row row_lt rfl rfl
  · have place := position_toNat height width
    have written : writeCell (vga.row * vgaWidth.toUInt32 + vga.column).toUInt16
        (vgaEntry character vga.currentColor) vga = _ := writeCell_ok (by
      rw [place]
      change _ < 2000
      omega) _
    rw [Machine.bind_of_ok (Machine.get_run _), Machine.bind_of_ok written,
      Machine.bind_of_ok (Machine.modify_run _ _), Machine.bind_of_ok (Machine.get_run _)]
    have shown : ∀ vga' : Vga, vga'.memory = Function.update vga.memory
        (vga.row * vgaWidth.toUInt32 + vga.column).toUInt16.toNat
        (vgaEntry character vga.currentColor) →
        vga'.ShowsRows (d.ended ++ [d.line ++ [character]]) d.top := by
      intro vga' memory
      rw [place] at memory
      have cells' := cells.write row column column_lt memory
      rwa [vgaEntry_toUInt8] at cells'
    have next : (vga.column + 1).toNat = vga.column.toNat + 1 := by
      rw [UInt32.toNat_add]
      exact Nat.mod_eq_of_lt (by change vga.column.toNat + 1 < _; omega)
    simp only [next, column]
    rcases Nat.lt_or_ge (vga.column.toNat + 1) vgaWidth with inside | full
    · rw [if_neg (Nat.not_le.2 inside), dif_pos inside]
      refine Shows.setCursor ⟨shown _ rfl, row, ?_, row_lt, ?_⟩
      · change (d.line ++ [character]).length = (vga.column + 1).toNat
        rw [next, ← column, List.length_append, List.length_singleton]
      · rw [next]
        exact inside
    · rw [if_pos full, dif_neg (Nat.not_lt.2 full), Machine.bind_of_ok (Machine.modify_run _ _)]
      have cells' := shown { vga with
        memory := Function.update vga.memory
          (vga.row * vgaWidth.toUInt32 + vga.column).toUInt16.toNat
          (vgaEntry character vga.currentColor)
        column := 0 } rfl
      obtain ⟨vga', run, shows⟩ := nextRow_ok cells' row row_lt rfl rfl
      rw [Machine.bind_of_ok run]
      exact shows.setCursor

theorem Shows.writeString {d : Document} (h : vga.Shows d) {data : List UInt8}
    (terminated : 0 ∈ data) :
    ∃ vga', vgaWriteString data vga = .ok () vga' ∧
      vga'.Shows ((data.takeWhile (· ≠ 0)).foldl Document.write d) := by
  induction data generalizing vga d with
  | nil => exact absurd terminated List.not_mem_nil
  | cons character data ih =>
      rw [vgaWriteString]
      rcases eq_or_ne character 0 with stop | more
      · rw [if_pos stop, stop]
        exact ⟨vga, rfl, h⟩
      · obtain ⟨vga₁, first, h₁⟩ := h.writeChar character
        obtain ⟨vga₂, rest, h₂⟩ := ih h₁ ((List.mem_cons.1 terminated).resolve_left more.symm)
        rw [if_neg more, Machine.bind_of_ok first, List.takeWhile_cons_of_pos (by simpa using more)]
        exact ⟨vga₂, rest, h₂⟩

/-- Each call writes its text to the document. -/
theorem Shows.call {d : Document} (h : vga.Shows d) (call : VgaCall) :
    ∃ vga', call.run vga = .ok () vga' ∧ vga'.Shows (call.text.foldl Document.write d) := by
  cases call with
  | setColor foreground background =>
      exact ⟨_, rfl, h.cells, h.row, h.column, h.row_lt, h.column_lt⟩
  | writeChar character => exact h.writeChar character
  | writeString data terminated => exact h.writeString terminated

theorem Shows.calls {d : Document} (h : vga.Shows d) (calls : List VgaCall) :
    ∃ vga', calls.forM VgaCall.run vga = .ok () vga' ∧
      vga'.Shows ((calls.flatMap VgaCall.text).foldl Document.write d) := by
  induction calls generalizing vga d with
  | nil => exact ⟨vga, rfl, h⟩
  | cons call calls ih =>
      obtain ⟨vga₁, first, h₁⟩ := h.call call
      obtain ⟨vga₂, rest, h₂⟩ := ih h₁
      rw [List.flatMap_cons, List.foldl_append]
      exact ⟨vga₂, (Machine.bind_of_ok first).trans rest, h₂⟩

/-- A cleared screen shows the empty document. -/
theorem clear_shows (vga : Vga) : ∃ vga', vgaClear vga = .ok () vga' ∧ vga'.Shows .blank := by
  have top : (0 : UInt32).toNat < 25 := Nat.succ_pos 24
  have left : (0 : UInt32).toNat < 80 := Nat.succ_pos 79
  refine ⟨_, vgaClear_ok vga, fun y hy x hx => ?_, rfl, rfl, top, left⟩
  have height : y < 25 := hy
  have width : x < 80 := hx
  simp only [cellsFilled]
  rw [if_pos (by change 0 ≤ y * 80 + x ∧ y * 80 + x < 0 + 2000; omega), vgaEntry_toUInt8]
  exact (cellAt_concat_nil []).symm

end Vga

/-- After `vga_clear` any calls return, with every cell they use inside the frame
buffer, and leave the end of the document on the screen. -/
theorem screen_shows_document (vga : Vga) (calls : List VgaCall) :
    ∃ vga', (do vgaClear; calls.forM VgaCall.run) vga = .ok () vga' ∧
      vga'.Shows (.ofText (calls.flatMap VgaCall.text)) := by
  obtain ⟨vga₁, clear, h₁⟩ := vga.clear_shows
  obtain ⟨vga₂, run, h₂⟩ := h₁.calls calls
  exact ⟨vga₂, (Machine.bind_of_ok clear).trans run, h₂⟩

end ArkoiOs
