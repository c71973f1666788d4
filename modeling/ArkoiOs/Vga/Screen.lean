import Mathlib.Data.List.Basic
import ArkoiOs.Vga.Operations

/-!
# Screens that remember colours

A screen whose cells remember the character and the colour in force when they
were written or blanked, wherever a scroll has moved them since.  The frame buffer
refines it: each cell holds the entry of that character and colour, and the
driver has the screen's cursor and colour.
-/

namespace ArkoiOs

/-! ## Screens -/

/-- What a cell was written or blanked with. -/
structure Ink where
  character : UInt8
  color : UInt8
  deriving DecidableEq, Repr

/-- Cells by their number, row after row, and the cursor on the screen. -/
structure Screen where
  cells : ℕ → Ink
  row : ℕ
  column : ℕ
  color : UInt8
  row_lt : row < vgaHeight
  column_lt : column < vgaWidth

namespace Screen

/-- The number of the cell under the cursor. -/
def position (s : Screen) : ℕ := s.row * vgaWidth + s.column

theorem position_lt (s : Screen) : s.position < 2000 := by
  have row : s.row < 25 := s.row_lt
  have column : s.column < 80 := s.column_lt
  change s.row * 80 + s.column < 2000
  omega

/-- A cell blanked now. -/
def space (s : Screen) : Ink := ⟨0x20, s.color⟩

/-- Blank all cells, with the cursor at the origin. -/
def clear (s : Screen) : Screen :=
  { s with
    cells := fun _ => s.space
    row := 0
    column := 0
    row_lt := by decide
    column_lt := by decide }

/-- The colour of what is written or blanked from now on. -/
def setColor (s : Screen) (foreground background : VgaColor) : Screen :=
  { s with color := (foreground.value ||| background.value <<< 4).toUInt8 }

/-- Move the cursor; a place that is not on the screen is ignored. -/
def setCursor (s : Screen) (row column : ℕ) : Screen :=
  if on_screen : row < vgaHeight ∧ column < vgaWidth then
    { s with
      row := row
      column := column
      row_lt := on_screen.1
      column_lt := on_screen.2 }
  else s

/-- The start of the next row; below the last one the cells move up by a row. -/
def newRow (s : Screen) : Screen :=
  if more : s.row + 1 < vgaHeight then
    { s with
      row := s.row + 1
      column := 0
      row_lt := more
      column_lt := by decide }
  else
    { s with
      cells := fun i => if i < 1920 then s.cells (i + vgaWidth) else s.space
      column := 0
      column_lt := by decide }

/-- Behind the cell under the cursor. -/
def advance (s : Screen) : Screen :=
  if more : s.column + 1 < vgaWidth then
    { s with
      column := s.column + 1
      column_lt := more }
  else s.newRow

/-- Write a character. -/
def write (s : Screen) (character : UInt8) : Screen :=
  if character = 0x0A then s.newRow
  else advance { s with cells := Function.update s.cells s.position ⟨character, s.color⟩ }

end Screen

/-! ## Refinement -/

/-- The entry of what a cell remembers. -/
def Ink.entry (ink : Ink) : UInt16 := vgaEntry ink.character ink.color

namespace Vga

/-- The frame buffer and the variables of the driver show the screen. -/
structure Displays (vga : Vga) (s : Screen) : Prop where
  cells : ∀ i < 2000, vga.memory i = (s.cells i).entry
  row : vga.row.toNat = s.row
  column : vga.column.toNat = s.column
  color : vga.currentColor = s.color

/-- The cursor of the driver was programmed last. -/
def JustProgrammed (vga : Vga) : Prop :=
  ∃ before, vga.ports = before ++
    programCursor (vga.row * vgaWidth.toUInt32 + vga.column).toUInt16

variable {vga : Vga} {s : Screen}

/-- `vga_clear` programs the origin. -/
theorem JustProgrammed.origin (row : vga.row = 0) (column : vga.column = 0)
    {before : List (UInt16 × UInt8)} (ports : vga.ports = before ++ programCursor 0) :
    vga.JustProgrammed := by
  have position : ((0 : UInt32) * vgaWidth.toUInt32 + 0).toUInt16 = 0 := by decide
  refine ⟨before, ?_⟩
  rw [row, column, position]
  exact ports

/-! ## Operations on the screen -/

theorem Displays.setColor (h : vga.Displays s) (foreground background : VgaColor) :
    ∃ vga', vgaSetColor foreground background vga = .ok () vga' ∧
      vga'.Displays (s.setColor foreground background) ∧ vga'.ports = vga.ports :=
  ⟨_, rfl, ⟨h.cells, h.row, h.column, rfl⟩, rfl⟩

theorem Displays.clear (h : vga.Displays s) :
    ∃ vga', vgaClear vga = .ok () vga' ∧ vga'.Displays s.clear ∧ vga'.JustProgrammed := by
  refine ⟨_, vgaClear_ok vga, ⟨?_, rfl, rfl, h.color⟩, .origin rfl rfl rfl⟩
  intro i hi
  simp only [cellsFilled]
  rw [if_pos (by omega), h.color]
  rfl

/-- Before `vga_init` the frame buffer may hold anything. -/
theorem init_displays (vga : Vga) (s : Screen) :
    ∃ vga', vgaInit vga = .ok () vga' ∧
      vga'.Displays (s.setColor .lightGrey .black).clear ∧ vga'.JustProgrammed := by
  have blank := vgaClear_ok
    { vga with currentColor := (VgaColor.lightGrey.value ||| VgaColor.black.value <<< 4).toUInt8 }
  have run : vgaInit vga = _ := (Machine.bind_of_ok (Machine.modify_run _ vga)).trans blank
  refine ⟨_, run, ⟨?_, rfl, rfl, rfl⟩, .origin rfl rfl rfl⟩
  intro i hi
  simp only [cellsFilled]
  rw [if_pos (by omega)]
  rfl

theorem Displays.setCursor (h : vga.Displays s) (row column : UInt16) :
    ∃ vga', vgaSetCursor row column vga = .ok () vga' ∧
      vga'.Displays (s.setCursor row.toNat column.toNat) ∧
      if row.toNat < vgaHeight ∧ column.toNat < vgaWidth then vga'.JustProgrammed
      else vga'.ports = vga.ports := by
  unfold Screen.setCursor
  split
  · rename_i on_screen
    have run := @vgaSetCursor_ok vga row.toUInt32 column.toUInt32
      (by rw [UInt16.toNat_toUInt32]; exact on_screen.1)
      (by rw [UInt16.toNat_toUInt32]; exact on_screen.2)
    simp only [UInt16.toUInt16_toUInt32] at run
    exact ⟨_, run, ⟨h.cells, UInt16.toNat_toUInt32 row, UInt16.toNat_toUInt32 column, h.color⟩,
      vga.ports, rfl⟩
  · rename_i outside
    refine ⟨vga, ?_, h, rfl⟩
    unfold vgaSetCursor
    rw [if_pos (by omega)]
    rfl

/-- `g_column = 0` and `++g_row`, with the scroll. -/
theorem Displays.newRow (h : vga.Displays s) :
    ∃ vga', nextRow { vga with column := 0 } = .ok () vga' ∧ vga'.Displays s.newRow ∧
      if s.row + 1 < vgaHeight then vga'.ports = vga.ports else vga'.JustProgrammed := by
  have height : s.row < 25 := s.row_lt
  have row := h.row
  have next : (vga.row + 1).toNat = s.row + 1 := by
    rw [UInt32.toNat_add, row]
    exact Nat.mod_eq_of_lt (by change s.row + 1 < _; omega)
  have tested : nextRow { vga with column := 0 } =
      (if s.row + 1 ≥ vgaHeight then vgaScroll else pure ())
        { vga with row := vga.row + 1, column := 0 } := by
    unfold nextRow
    rw [Machine.bind_of_ok (Machine.modify_run _ _), Machine.bind_of_ok (Machine.get_run _)]
    simp only [next]
  rw [tested, Screen.newRow]
  rcases Nat.lt_or_ge (s.row + 1) vgaHeight with more | last
  · simp only [if_neg (Nat.not_le.2 more), if_pos more, dif_pos more]
    exact ⟨_, rfl, ⟨h.cells, next, rfl, h.color⟩, rfl⟩
  · simp only [if_pos last, if_neg (Nat.not_lt.2 last), dif_neg (Nat.not_lt.2 last)]
    have left : (0 : UInt32).toNat < 80 := Nat.succ_pos 79
    have bottom : (24 : UInt32).toNat = s.row := by
      have full : 25 ≤ s.row + 1 := last
      change 24 = s.row
      omega
    refine ⟨_, vgaScroll_ok { vga with row := vga.row + 1, column := 0 } left,
      ⟨?_, bottom, rfl, h.color⟩, vga.ports, rfl⟩
    intro i hi
    simp only [cellsFilled, cellsUp]
    rcases Nat.lt_or_ge i 1920 with upper | lower
    · rw [if_neg (by omega), if_pos upper, if_pos upper]
      exact h.cells (i + 80) (by omega)
    · rw [if_pos (by omega), if_neg (by omega), h.color]
      rfl

/-- Programming the cursor where the screen has it. -/
theorem Displays.programCursor (h : vga.Displays s) :
    ∃ vga', (do
        let vga ← get
        vgaSetCursor vga.row.toUInt16 vga.column.toUInt16) vga = .ok () vga' ∧
      vga'.Displays s ∧ vga'.JustProgrammed := by
  have row : vga.row.toNat < 25 := h.row ▸ s.row_lt
  have column : vga.column.toNat < 80 := h.column ▸ s.column_lt
  exact ⟨_, vgaSetCursor_ok vga row column, ⟨h.cells, h.row, h.column, h.color⟩, vga.ports, rfl⟩

/-- `vga_write_char`.  It leaves the controller as it was behind a newline above
the last row. -/
theorem Displays.writeChar (h : vga.Displays s) (character : UInt8) :
    ∃ vga', vgaWriteChar character vga = .ok () vga' ∧ vga'.Displays (s.write character) ∧
      if character = 0x0A ∧ s.row + 1 < vgaHeight then vga'.ports = vga.ports
      else vga'.JustProgrammed := by
  have height : vga.row.toNat < 25 := h.row ▸ s.row_lt
  have width : vga.column.toNat < 80 := h.column ▸ s.column_lt
  unfold vgaWriteChar Screen.write
  rcases eq_or_ne character 0x0A with newline | printed
  · rw [if_pos newline, if_pos newline, Machine.bind_of_ok (Machine.modify_run _ _)]
    simp only [newline, true_and]
    exact h.newRow
  · simp only [if_neg printed, if_neg fun stays : character = 0x0A ∧ s.row + 1 < vgaHeight =>
      printed stays.1]
    have place : (vga.row * vgaWidth.toUInt32 + vga.column).toUInt16.toNat = s.position := by
      rw [position_toNat height width, h.row, h.column]
      rfl
    have inside := s.position_lt
    have written : writeCell (vga.row * vgaWidth.toUInt32 + vga.column).toUInt16
        (vgaEntry character vga.currentColor) vga = _ := writeCell_ok (by
      rw [place]
      exact inside) _
    rw [Machine.bind_of_ok (Machine.get_run _), Machine.bind_of_ok written,
      Machine.bind_of_ok (Machine.modify_run _ _), Machine.bind_of_ok (Machine.get_run _), place]
    have inked : Displays
        { vga with
          memory := Function.update vga.memory s.position (vgaEntry character vga.currentColor) }
        { s with cells := Function.update s.cells s.position ⟨character, s.color⟩ } := by
      refine ⟨fun i hi => ?_, h.row, h.column, h.color⟩
      simp only [Function.update_apply]
      split
      · rw [h.color]
        rfl
      · exact h.cells i hi
    have next : (vga.column + 1).toNat = s.column + 1 := by
      rw [UInt32.toNat_add, h.column]
      exact Nat.mod_eq_of_lt (by change s.column + 1 < _; have := h.column; omega)
    simp only [next, Screen.advance]
    rcases Nat.lt_or_ge (s.column + 1) vgaWidth with more | full
    · rw [if_neg (Nat.not_le.2 more), dif_pos more]
      exact Displays.programCursor ⟨inked.cells, inked.row, next, inked.color⟩
    · rw [if_pos full, dif_neg (Nat.not_lt.2 full), Machine.bind_of_ok (Machine.modify_run _ _)]
      obtain ⟨vga', run, shown, -⟩ := inked.newRow
      rw [Machine.bind_of_ok run]
      exact shown.programCursor

end Vga

/-! ## Commands -/

/-- A call of the interface; a string has a terminator. -/
inductive VgaCommand
  | init
  | clear
  | setColor (foreground background : VgaColor)
  | setCursor (row column : UInt16)
  | writeChar (character : UInt8)
  | writeString (data : List UInt8) (terminated : 0 ∈ data)

namespace VgaCommand

/-- Run the call. -/
def run : VgaCommand → KernelM Vga Unit
  | init => vgaInit
  | clear => vgaClear
  | setColor foreground background => vgaSetColor foreground background
  | setCursor row column => vgaSetCursor row column
  | writeChar character => vgaWriteChar character
  | writeString data _ => vgaWriteString data

/-- The characters the call writes. -/
def text : VgaCommand → List UInt8
  | writeChar character => [character]
  | writeString data _ => data.takeWhile (· ≠ 0)
  | _ => []

/-- A string is written character by character. -/
def steps : VgaCommand → List VgaCommand
  | writeString data _ => (data.takeWhile (· ≠ 0)).map writeChar
  | command => [command]

end VgaCommand

namespace Screen

/-- The screen after `vga_init`. -/
def initial : Screen where
  cells := fun _ => ⟨0x20, 0x07⟩
  row := 0
  column := 0
  color := 0x07
  row_lt := by decide
  column_lt := by decide

/-- The screen after a call. -/
def after (s : Screen) : VgaCommand → Screen
  | .init => initial
  | .clear => s.clear
  | .setColor foreground background => s.setColor foreground background
  | .setCursor row column => s.setCursor row.toNat column.toNat
  | .writeChar character => s.write character
  | .writeString data _ => (data.takeWhile (· ≠ 0)).foldl write s

end Screen

theorem VgaCommand.writeString_run {data : List UInt8} (terminated : 0 ∈ data) :
    vgaWriteString data = (data.takeWhile (· ≠ 0)).forM vgaWriteChar := by
  induction data with
  | nil => exact absurd terminated List.not_mem_nil
  | cons character data ih =>
      rw [vgaWriteString]
      rcases eq_or_ne character 0 with stop | more
      · rw [if_pos stop, stop]
        rfl
      · rw [if_neg more, ih ((List.mem_cons.1 terminated).resolve_left more.symm),
          List.takeWhile_cons_of_pos (by simpa using more)]
        rfl

/-! ## Runs -/

section Prefixes

variable {α : Type} {P : List α → α → Prop} {l : List α} {last : α}

/-- Nothing has a last element in the empty list. -/
theorem forall_prefix_nil : ∀ front a, front ++ [a] <+: [] → P front a := by
  intro front a initial
  exact absurd (List.prefix_nil.1 initial)
    (List.append_ne_nil_of_right_ne_nil front (List.cons_ne_nil _ _))

/-- What holds of each element and those before it holds of the last one. -/
theorem forall_prefix_concat :
    (∀ front a, front ++ [a] <+: l ++ [last] → P front a) ↔
      (∀ front a, front ++ [a] <+: l → P front a) ∧ P l last := by
  constructor
  · intro all
    refine ⟨fun front a initial => all front a ?_, all _ _ (List.prefix_refl _)⟩
    exact initial.trans (List.prefix_append _ _)
  · rintro ⟨before, here⟩ front a initial
    rcases List.prefix_concat_iff.1 initial with whole | earlier
    · obtain ⟨rfl, same⟩ := List.append_inj' whole rfl
      cases same
      exact here
    · exact before front a earlier

end Prefixes

theorem forall_prefix_append {α : Type} {P : List α → Prop} {first rest : List α} :
    (∀ front, front <+: first ++ rest → P front) ↔
      (∀ front, front <+: first → P front) ∧ ∀ front, front <+: rest → P (first ++ front) := by
  constructor
  · intro all
    exact ⟨fun front initial => all front (initial.trans (List.prefix_append _ _)),
      fun front initial => all _ ((List.prefix_append_right_inj first).2 initial)⟩
  · rintro ⟨before, behind⟩ front initial
    rcases List.prefix_or_prefix_of_prefix initial (List.prefix_append first rest) with h | h
    · exact before front h
    · obtain ⟨more, rfl⟩ := h
      exact behind more ((List.prefix_append_right_inj first).1 initial)

/-- `vga_init` and the calls. -/
def vgaRun (commands : List VgaCommand) : KernelM Vga Unit := do
  vgaInit
  commands.forM VgaCommand.run

theorem vgaRun_concat {commands : List VgaCommand} {command : VgaCommand} {vga vga' : Vga}
    (run : vgaRun commands vga = .ok () vga') :
    vgaRun (commands ++ [command]) vga = command.run vga' := by
  obtain ⟨⟨⟩, vga₁, init, rest⟩ := Machine.bind_eq_ok.1 run
  have append : (commands ++ [command]).forM VgaCommand.run =
      (do commands.forM VgaCommand.run; [command].forM VgaCommand.run) := List.forM_append
  have alone : [command].forM VgaCommand.run = command.run := bind_pure_unit
  rw [vgaRun, Machine.bind_of_ok init, append, Machine.bind_of_ok rest, alone]

namespace Screen

/-- The screen after `vga_init` and the calls. -/
def ofCommands (commands : List VgaCommand) : Screen := commands.foldl after initial

theorem ofCommands_concat (commands : List VgaCommand) (command : VgaCommand) :
    ofCommands (commands ++ [command]) = (ofCommands commands).after command :=
  List.foldl_concat ..

end Screen

namespace Vga

variable {vga : Vga} {s : Screen}

theorem Displays.writeText (h : vga.Displays s) (text : List UInt8) :
    ∃ vga', text.forM vgaWriteChar vga = .ok () vga' ∧
      vga'.Displays (text.foldl Screen.write s) := by
  induction text generalizing vga s with
  | nil => exact ⟨vga, rfl, h⟩
  | cons character text ih =>
      obtain ⟨vga₁, first, h₁, -⟩ := h.writeChar character
      obtain ⟨vga₂, rest, h₂⟩ := ih h₁
      exact ⟨vga₂, (Machine.bind_of_ok first).trans rest, h₂⟩

/-- Each call does on the screen what it does to the frame buffer. -/
theorem Displays.command (h : vga.Displays s) (command : VgaCommand) :
    ∃ vga', command.run vga = .ok () vga' ∧ vga'.Displays (s.after command) := by
  cases command with
  | init =>
      obtain ⟨vga', run, h', -⟩ := init_displays vga s
      exact ⟨vga', run, h'⟩
  | clear =>
      obtain ⟨vga', run, h', -⟩ := h.clear
      exact ⟨vga', run, h'⟩
  | setColor foreground background =>
      obtain ⟨vga', run, h', -⟩ := h.setColor foreground background
      exact ⟨vga', run, h'⟩
  | setCursor row column =>
      obtain ⟨vga', run, h', -⟩ := h.setCursor row column
      exact ⟨vga', run, h'⟩
  | writeChar character =>
      obtain ⟨vga', run, h', -⟩ := h.writeChar character
      exact ⟨vga', run, h'⟩
  | writeString data terminated =>
      obtain ⟨vga', run, h'⟩ := h.writeText (data.takeWhile (· ≠ 0))
      rw [← VgaCommand.writeString_run terminated] at run
      exact ⟨vga', run, h'⟩

theorem Displays.commands (h : vga.Displays s) (commands : List VgaCommand) :
    ∃ vga', commands.forM VgaCommand.run vga = .ok () vga' ∧
      vga'.Displays (commands.foldl Screen.after s) := by
  induction commands generalizing vga s with
  | nil => exact ⟨vga, rfl, h⟩
  | cons command commands ih =>
      obtain ⟨vga₁, first, h₁⟩ := h.command command
      obtain ⟨vga₂, rest, h₂⟩ := ih h₁
      exact ⟨vga₂, (Machine.bind_of_ok first).trans rest, h₂⟩

/-- After `vga_init` the frame buffer displays the screen of the calls. -/
theorem displays_ofCommands (vga : Vga) (commands : List VgaCommand) :
    ∃ vga', vgaRun commands vga = .ok () vga' ∧
      vga'.Displays (.ofCommands commands) := by
  obtain ⟨vga₁, init, h₁, -⟩ := init_displays vga .initial
  obtain ⟨vga₂, run, h₂⟩ := h₁.commands commands
  exact ⟨vga₂, (Machine.bind_of_ok init).trans run, h₂⟩

end Vga

end ArkoiOs
