import ArkoiOs.Vga.Screen
import Mathlib.Data.List.Induction

/-!
# The cursor of the controller

The controller of the screen has an index register and takes each byte on its
data port into the register of that index.  `vga_write_char` returns behind a
newline without programming it, unless the newline scrolled: the hardware cursor
then stays above the row of the driver until the next call that programs it.
-/

namespace ArkoiOs

/-! ## The controller -/

/-- The index register, and the registers for the cursor. -/
structure Crtc where
  index : UInt8
  high : UInt8
  low : UInt8
  deriving DecidableEq, Repr

namespace Crtc

/-- The controller after one byte on one of its ports. -/
def out (crtc : Crtc) (write : UInt16 × UInt8) : Crtc :=
  if write.1 = vgaCrtcIndexPort then { crtc with index := write.2 }
  else if write.1 = vgaCrtcDataPort then
    if crtc.index = vgaCrtcCursorLow then { crtc with low := write.2 }
    else if crtc.index = vgaCrtcCursorHigh then { crtc with high := write.2 }
    else crtc
  else crtc

/-- The position of the cursor. -/
def position (crtc : Crtc) : ℕ := crtc.high.toNat * 256 + crtc.low.toNat

/-- The driver programs the whole position. -/
theorem position_programCursor (crtc : Crtc) (position : UInt16) :
    ((programCursor position).foldl out crtc).position = position.toNat := by
  have programmed : (programCursor position).foldl out crtc =
      ⟨vgaCrtcCursorHigh, ((position >>> 8) &&& 0xFF).toUInt8, (position &&& 0xFF).toUInt8⟩ := rfl
  have low : (position &&& 0xFF).toUInt8.toNat = position.toNat % 256 := by
    have mask : position.toNat &&& 0xFF = position.toNat % 256 :=
      Nat.and_two_pow_sub_one_eq_mod position.toNat 8
    rw [UInt16.toNat_toUInt8, UInt16.toNat_and]
    exact (congrArg (· % 256) mask).trans (Nat.mod_mod _ _)
  have high : ((position >>> 8) &&& 0xFF).toUInt8.toNat = position.toNat / 256 := by
    have shift : (position >>> 8).toNat = position.toNat / 256 :=
      (UInt16.toNat_shiftRight _ _).trans (Nat.shiftRight_eq_div_pow _ _)
    have mask : (position >>> 8).toNat &&& 0xFF = (position >>> 8).toNat % 256 :=
      Nat.and_two_pow_sub_one_eq_mod _ 8
    rw [UInt16.toNat_toUInt8, UInt16.toNat_and]
    refine (congrArg (· % 256) mask).trans ?_
    have := position.toNat_lt
    simp only [shift]
    omega
  rw [programmed, Crtc.position, low, high]
  omega

end Crtc

/-- Where the controller has the cursor, when it started as `crtc`. -/
def Vga.hardwareCursor (crtc : Crtc) (vga : Vga) : ℕ := (vga.ports.foldl Crtc.out crtc).position

/-- The controller has the cursor where the driver has it, on the screen. -/
def Vga.HardwareFollows (crtc : Crtc) (vga : Vga) : Prop :=
  vga.hardwareCursor crtc = vga.row.toNat * vgaWidth + vga.column.toNat ∧
    vga.hardwareCursor crtc < 2000

/-! ## One character -/

/-- The frame buffer displays the screen; the hardware cursor is at the cursor of
the screen, or it is above its row. -/
structure Vga.Tracks (crtc : Crtc) (vga : Vga) (s : Screen) (current : Prop) : Prop where
  displays : vga.Displays s
  here : current → vga.hardwareCursor crtc = s.position
  above : ¬current → vga.hardwareCursor crtc < s.row * vgaWidth

namespace Vga

variable {crtc : Crtc} {vga vga' : Vga} {s : Screen} {current : Prop}

theorem hardwareCursor_of_programmed (h : vga.Displays s) (programmed : vga.JustProgrammed) :
    vga.hardwareCursor crtc = s.position := by
  obtain ⟨before, ports⟩ := programmed
  have row : vga.row.toNat < 25 := h.row ▸ s.row_lt
  have column : vga.column.toNat < 80 := h.column ▸ s.column_lt
  rw [hardwareCursor, ports, List.foldl_append, Crtc.position_programCursor,
    position_toNat row column, h.row, h.column]
  rfl

theorem Tracks.of_programmed (h : vga.Displays s) (programmed : vga.JustProgrammed) :
    vga.Tracks crtc s True :=
  ⟨h, fun _ => hardwareCursor_of_programmed h programmed, fun none => absurd trivial none⟩

theorem hardwareCursor_of_ports (same : vga'.ports = vga.ports) :
    vga'.hardwareCursor crtc = vga.hardwareCursor crtc := by
  rw [hardwareCursor, same]
  rfl

/-- The hardware cursor is not below the row of the screen. -/
theorem Tracks.hardwareCursor_lt (h : vga.Tracks crtc s current) :
    vga.hardwareCursor crtc < (s.row + 1) * vgaWidth := by
  have width : s.column < 80 := s.column_lt
  change vga.hardwareCursor crtc < (s.row + 1) * 80
  by_cases now : current
  · rw [h.here now]
    change s.row * 80 + s.column < _
    omega
  · have above : vga.hardwareCursor crtc < s.row * 80 := h.above now
    omega

/-- The hardware cursor follows exactly where it is current. -/
theorem Tracks.follows_iff (h : vga.Tracks crtc s current) :
    vga.HardwareFollows crtc ↔ current := by
  have bound : s.position < 2000 := s.position_lt
  rw [HardwareFollows, h.displays.row, h.displays.column]
  constructor
  · intro follows
    by_contra stale
    have above : vga.hardwareCursor crtc < s.row * 80 := h.above stale
    have same : vga.hardwareCursor crtc = s.row * 80 + s.column := follows.1
    omega
  · intro now
    rw [h.here now]
    exact ⟨rfl, bound⟩

theorem Tracks.congr {current' : Prop} (h : vga.Tracks crtc s current)
    (same : current ↔ current') : vga.Tracks crtc s current' :=
  ⟨h.displays, fun now => h.here (same.2 now), fun stale => h.above (mt same.1 stale)⟩

end Vga

/-- A newline above the last row leaves the hardware cursor where it was. -/
def Screen.LeavesBehind (s : Screen) (character : UInt8) : Prop :=
  character = 0x0A ∧ s.row + 1 < vgaHeight

theorem Vga.Tracks.writeChar {crtc : Crtc} {vga : Vga} {s : Screen} {current : Prop}
    (h : vga.Tracks crtc s current) (character : UInt8) :
    ∃ vga', vgaWriteChar character vga = .ok () vga' ∧
      vga'.Tracks crtc (s.write character) (¬s.LeavesBehind character) := by
  obtain ⟨vga', run, shown, ports⟩ := h.displays.writeChar character
  refine ⟨vga', run, ?_⟩
  split at ports
  · rename_i newline
    have behind : s.LeavesBehind character := newline
    refine ⟨shown, fun now => absurd behind now, fun _ => ?_⟩
    have row : (s.write character).row = s.row + 1 := by
      rw [Screen.write, if_pos behind.1, Screen.newRow, dif_pos behind.2]
    rw [Vga.hardwareCursor_of_ports ports, row]
    exact h.hardwareCursor_lt
  · rename_i other
    exact (Vga.Tracks.of_programmed shown ports).congr (iff_of_true trivial other)

/-! ## Calls -/

namespace Screen

/-- Whether the hardware cursor is current after a text. -/
def CurrentAfter : Screen → Prop → List UInt8 → Prop
  | _, current, [] => current
  | s, _, character :: text => (s.write character).CurrentAfter (¬s.LeavesBehind character) text

/-- The last character decides. -/
theorem currentAfter_concat (s : Screen) (current : Prop) (text : List UInt8) (character : UInt8) :
    s.CurrentAfter current (text ++ [character]) =
      ¬(text.foldl write s).LeavesBehind character := by
  induction text generalizing s current with
  | nil => rfl
  | cons first text ih => exact ih _ _

/-- The call ends with a newline above the last row. -/
def EndsBehind (s : Screen) (command : VgaCommand) : Prop :=
  ∃ text character, command.text = text ++ [character] ∧
    (text.foldl write s).LeavesBehind character

/-- A call that starts with the hardware cursor current ends so unless it leaves it
behind. -/
theorem currentAfter_iff (s : Screen) (command : VgaCommand) :
    s.CurrentAfter True command.text ↔ ¬s.EndsBehind command := by
  rcases List.eq_nil_or_concat command.text with none | ⟨text, character, some⟩
  · rw [none]
    refine iff_of_true trivial ?_
    rintro ⟨text, character, same, -⟩
    rw [none] at same
    exact List.append_ne_nil_of_right_ne_nil text (List.cons_ne_nil _ _) same.symm
  · rw [some, List.concat_eq_append, currentAfter_concat]
    refine not_congr ⟨fun behind => ⟨text, character, by rw [some, List.concat_eq_append], behind⟩,
      ?_⟩
    rintro ⟨text', character', same, behind⟩
    rw [some, List.concat_eq_append] at same
    obtain ⟨rfl, last⟩ := List.append_inj' same rfl
    cases last
    exact behind

end Screen

namespace Vga

variable {crtc : Crtc} {vga : Vga} {s : Screen} {current : Prop}

theorem Tracks.writeText (h : vga.Tracks crtc s current) (text : List UInt8) :
    ∃ vga', text.forM vgaWriteChar vga = .ok () vga' ∧
      vga'.Tracks crtc (text.foldl Screen.write s) (s.CurrentAfter current text) := by
  induction text generalizing vga s current with
  | nil => exact ⟨vga, rfl, h⟩
  | cons character text ih =>
      obtain ⟨vga₁, first, h₁⟩ := h.writeChar character
      obtain ⟨vga₂, rest, h₂⟩ := ih h₁
      exact ⟨vga₂, (Machine.bind_of_ok first).trans rest, h₂⟩

/-- A call that finds the hardware cursor current. -/
theorem Tracks.command (h : vga.Tracks crtc s True) (command : VgaCommand) :
    ∃ vga', command.run vga = .ok () vga' ∧
      vga'.Tracks crtc (s.after command) (¬s.EndsBehind command) := by
  have ends := s.currentAfter_iff command
  cases command with
  | init =>
      obtain ⟨vga', run, shown, programmed⟩ := init_displays vga s
      exact ⟨vga', run, (Tracks.of_programmed shown programmed).congr ends⟩
  | clear =>
      obtain ⟨vga', run, shown, programmed⟩ := h.displays.clear
      exact ⟨vga', run, (Tracks.of_programmed shown programmed).congr ends⟩
  | setColor foreground background =>
      obtain ⟨vga', run, shown, ports⟩ := h.displays.setColor foreground background
      refine ⟨vga', run, Tracks.congr ⟨shown, fun _ => ?_, fun none => absurd trivial none⟩ ends⟩
      rw [hardwareCursor_of_ports ports]
      exact h.here trivial
  | setCursor row column =>
      obtain ⟨vga', run, shown, ports⟩ := h.displays.setCursor row column
      refine ⟨vga', run, ?_⟩
      split at ports
      · exact (Tracks.of_programmed shown ports).congr ends
      · rename_i outside
        have same : s.after (.setCursor row column) = s := dif_neg outside
        refine Tracks.congr ⟨shown, fun _ => ?_, fun none => absurd trivial none⟩ ends
        rw [hardwareCursor_of_ports ports, same]
        exact h.here trivial
  | writeChar character =>
      obtain ⟨vga', run, h'⟩ := h.writeChar character
      exact ⟨vga', run, h'.congr ends⟩
  | writeString data terminated =>
      obtain ⟨vga', run, h'⟩ := h.writeText (data.takeWhile (· ≠ 0))
      rw [← VgaCommand.writeString_run terminated] at run
      exact ⟨vga', run, h'.congr ends⟩

end Vga

/-! ## Runs -/

/-- When each call returns, the hardware cursor is where the driver has its own. -/
def HardwareAlwaysFollows (crtc : Crtc) (vga : Vga) (commands : List VgaCommand) : Prop :=
  ∀ front, front <+: commands →
    ∃ vga', vgaRun front vga = .ok () vga' ∧ vga'.HardwareFollows crtc

/-- No call ends with a newline above the last row. -/
def StaysCurrent (commands : List VgaCommand) : Prop :=
  ∀ front command, front ++ [command] <+: commands →
    ¬(Screen.ofCommands front).EndsBehind command

section Run

variable {crtc : Crtc} {vga : Vga} {commands : List VgaCommand} {command : VgaCommand}

theorem hardwareAlwaysFollows_concat :
    HardwareAlwaysFollows crtc vga (commands ++ [command]) ↔
      HardwareAlwaysFollows crtc vga commands ∧
        ∃ vga', vgaRun (commands ++ [command]) vga = .ok () vga' ∧ vga'.HardwareFollows crtc := by
  simp only [HardwareAlwaysFollows, List.prefix_concat_iff, or_imp, forall_and, forall_eq]
  exact and_comm

theorem staysCurrent_nil : StaysCurrent [] := forall_prefix_nil

theorem staysCurrent_concat :
    StaysCurrent (commands ++ [command]) ↔
      StaysCurrent commands ∧ ¬(Screen.ofCommands commands).EndsBehind command :=
  forall_prefix_concat

/-- After such calls the hardware cursor is current. -/
theorem vgaRun_tracks (crtc : Crtc) (vga : Vga) (stays : StaysCurrent commands) :
    ∃ vga', vgaRun commands vga = .ok () vga' ∧
      vga'.Tracks crtc (.ofCommands commands) True := by
  induction commands using List.reverseRecOn with
  | nil =>
      obtain ⟨vga', init, shown, programmed⟩ := Vga.init_displays vga .initial
      exact ⟨vga', Machine.bind_of_ok init, .of_programmed shown programmed⟩
  | append_singleton commands command ih =>
      obtain ⟨before, last⟩ := staysCurrent_concat.1 stays
      obtain ⟨vga₁, run, tracks⟩ := ih before
      obtain ⟨vga₂, call, tracks'⟩ := tracks.command command
      rw [Screen.ofCommands_concat]
      exact ⟨vga₂, (vgaRun_concat run).trans call, tracks'.congr (iff_of_true last trivial)⟩

end Run

/-- In a run the hardware cursor follows the cursor of the driver when each call
returns if and only if no call ends with a newline above the last row. -/
theorem hardwareCursor_follows_iff (crtc : Crtc) (vga : Vga) (commands : List VgaCommand) :
    HardwareAlwaysFollows crtc vga commands ↔ StaysCurrent commands := by
  induction commands using List.reverseRecOn with
  | nil =>
      obtain ⟨vga', run, tracks⟩ := vgaRun_tracks crtc vga staysCurrent_nil
      refine iff_of_true (fun front initial => ?_) staysCurrent_nil
      rw [List.prefix_nil.1 initial]
      exact ⟨vga', run, tracks.follows_iff.2 trivial⟩
  | append_singleton commands command ih =>
      rw [hardwareAlwaysFollows_concat, staysCurrent_concat, ih]
      refine and_congr_right fun stays => ?_
      obtain ⟨vga₁, run, tracks⟩ := vgaRun_tracks crtc vga stays
      obtain ⟨vga₂, call, tracks'⟩ := tracks.command command
      rw [← tracks'.follows_iff, vgaRun_concat run, call]
      exact ⟨fun ⟨_, same, follows⟩ => by cases same; exact follows,
        fun follows => ⟨vga₂, rfl, follows⟩⟩

/-- A newline on the cleared screen leaves the hardware cursor at the origin. -/
theorem newline_not_followed :
    ¬ HardwareAlwaysFollows ⟨0, 0, 0⟩ ⟨fun _ => 0, 0, 0, 0, []⟩ [.writeChar 0x0A] := by
  intro follows
  obtain ⟨vga', run, follow⟩ := follows _ (List.prefix_refl _)
  obtain ⟨vga₁, init, tracks⟩ := vgaRun_tracks ⟨0, 0, 0⟩ ⟨fun _ => 0, 0, 0, 0, []⟩ staysCurrent_nil
  obtain ⟨vga₂, call, behind⟩ := tracks.command (.writeChar 0x0A)
  have whole := (vgaRun_concat init).trans call
  cases run.symm.trans whole
  exact behind.follows_iff.1 follow ⟨[], 0x0A, rfl, rfl, by decide⟩

end ArkoiOs
