import ArkoiOs.Vga.Screen
import Mathlib.Data.List.Induction

/-!
# The colour of each cell

The attribute byte of an entry is the colour only where the sign of the character
is clear: `vga_entry` extends the sign of a byte from 0x80 on over the colour.
-/

namespace ArkoiOs

/-! ## Attributes -/

/-- The attribute byte of a cell. -/
def Vga.attribute (vga : Vga) (index : ℕ) : UInt8 := (vga.memory index >>> 8).toUInt8

/-- The attribute byte of an entry: the sign of the character covers the colour. -/
theorem vgaEntry_attribute (character color : UInt8) :
    (vgaEntry character color >>> 8).toUInt8 = (if character < 0x80 then color else 0xFF) := by
  have bits : (vgaEntry character color >>> 8).toUInt8.toBitVec =
      ((character.toBitVec.signExtend 16 ||| color.toBitVec.setWidth 16 <<< 8) >>> 8).setWidth 8 :=
    rfl
  have sign : character < 0x80 ↔ character.toBitVec.msb = false := by
    rw [BitVec.msb_eq_decide, decide_eq_false_iff_not, Nat.not_le]
    exact UInt8.lt_iff_toNat_lt
  apply UInt8.toBitVec_inj.1
  rw [bits]
  refine BitVec.eq_of_getLsbD_eq fun i hi => ?_
  -- bit `8 + i` of the entry is the sign or bit `i` of the colour
  have bit : (((character.toBitVec.signExtend 16 ||| color.toBitVec.setWidth 16 <<< 8) >>>
      8).setWidth 8).getLsbD i = (character.toBitVec.msb || color.toBitVec.getLsbD i) := by
    have within : 8 + i < 16 := by omega
    have beyond : ¬8 + i < 8 := by omega
    simp only [BitVec.getLsbD_setWidth, BitVec.getLsbD_ushiftRight, BitVec.getLsbD_or,
      BitVec.getLsbD_signExtend, BitVec.getLsbD_shiftLeft, hi, within, beyond, decide_true,
      decide_false, if_false, Bool.true_and, Bool.not_false, Nat.add_sub_cancel_left]
    rw [decide_eq_true (by omega), Bool.true_and]
  rw [bit]
  split
  · rename_i low
    rw [sign.1 low, Bool.false_or]
  · rename_i high
    rw [Bool.not_eq_false _ |>.mp (mt sign.2 high), Bool.true_or]
    have ones : (0xFF : UInt8).toBitVec = BitVec.allOnes 8 := rfl
    rw [ones, BitVec.getLsbD_allOnes, decide_eq_true hi]

/-- The attribute byte is the colour for a character without sign, or where the colour
has all bits. -/
theorem Ink.attribute_iff (ink : Ink) :
    (ink.entry >>> 8).toUInt8 = ink.color ↔ ink.character < 0x80 ∨ ink.color = 0xFF := by
  rw [Ink.entry, vgaEntry_attribute]
  split
  · rename_i low
    exact iff_of_true rfl (.inl low)
  · rename_i high
    exact eq_comm.trans (or_iff_right high).symm

/-- Every cell has the colour that was in force when it was written or blanked. -/
def Vga.Colored (vga : Vga) (s : Screen) : Prop :=
  ∀ i < 2000, vga.attribute i = (s.cells i).color

/-- The colour covers the sign of the character. -/
def Ink.Plain (ink : Ink) : Prop := ink.character < 0x80 ∨ ink.color = 0xFF

instance (ink : Ink) : Decidable ink.Plain := by unfold Ink.Plain; infer_instance

theorem Vga.Displays.colored_iff {vga : Vga} {s : Screen} (h : vga.Displays s) :
    vga.Colored s ↔ ∀ i < 2000, (s.cells i).Plain := by
  refine forall_congr' fun i => forall_congr' fun hi => ?_
  rw [Vga.attribute, h.cells i hi]
  exact (s.cells i).attribute_iff

/-! ## Screens with plain cells -/

namespace Screen

/-- All cells are plain. -/
def AllPlain (s : Screen) : Prop := ∀ i < 2000, (s.cells i).Plain

variable {s : Screen}

theorem space_plain (s : Screen) : s.space.Plain := by
  have low : (0x20 : UInt8) < 0x80 := by decide
  exact .inl low

theorem clear_allPlain (s : Screen) : s.clear.AllPlain := fun _ _ => s.space_plain

/-- A scroll loses the first row only. -/
theorem newRow_allPlain_iff (lost : s.row + 1 = vgaHeight → ∀ i < 80, (s.cells i).Plain) :
    s.newRow.AllPlain ↔ s.AllPlain := by
  have height : s.row < vgaHeight := s.row_lt
  rw [newRow]
  split
  · rfl
  · rename_i last
    have others := lost (by omega)
    constructor
    · intro plain i hi
      rcases Nat.lt_or_ge i 80 with top | below
      · exact others i top
      · have moved := plain (i - 80) (by omega)
        simp only at moved
        rw [if_pos (by omega)] at moved
        have back : i - 80 + vgaWidth = i := Nat.sub_add_cancel below
        rwa [back] at moved
    · intro plain i hi
      simp only
      split
      · exact plain _ (by change i + 80 < 2000; omega)
      · exact s.space_plain

theorem write_color (s : Screen) (character : UInt8) : (s.write character).color = s.color := by
  have rows : ∀ s : Screen, s.newRow.color = s.color := by
    intro s
    rw [newRow]
    split <;> rfl
  rw [write]
  split
  · exact rows s
  · rw [advance]
    split
    · rfl
    · exact rows _

/-- What a character does to plain cells. -/
theorem AllPlain.write_iff (plain : s.AllPlain) (character : UInt8) :
    (s.write character).AllPlain ↔ (character ≠ 0x0A → Ink.Plain ⟨character, s.color⟩) := by
  rw [write]
  split
  · rename_i newline
    refine iff_of_true ?_ fun other => absurd newline other
    exact (newRow_allPlain_iff fun _ i hi => plain i (by omega)).2 plain
  · rename_i printed
    -- on the last row the cell under the cursor is not in the first row
    have inked : AllPlain { s with
        cells := Function.update s.cells s.position ⟨character, s.color⟩ } ↔
          Ink.Plain ⟨character, s.color⟩ := by
      constructor
      · intro all
        have here := all s.position s.position_lt
        dsimp only at here
        rwa [Function.update_self] at here
      · intro ink i hi
        dsimp only
        rw [Function.update_apply]
        split
        · exact ink
        · exact plain i hi
    rw [forall_prop_of_true printed, ← inked, advance]
    split
    · rfl
    · refine newRow_allPlain_iff fun last i hi => ?_
      have bottom : s.row + 1 = 25 := last
      have apart : i ≠ s.position := by
        change i ≠ s.row * 80 + s.column
        omega
      dsimp only
      rw [Function.update_of_ne apart]
      exact plain i (by omega)

/-- What a text does to plain cells, character by character. -/
theorem AllPlain.text_iff (plain : s.AllPlain) (text : List UInt8) :
    (∀ front, front <+: text → (front.foldl write s).AllPlain) ↔
      ∀ character ∈ text, character ≠ 0x0A → Ink.Plain ⟨character, s.color⟩ := by
  induction text generalizing s with
  | nil =>
      refine iff_of_true (fun front initial => ?_) fun _ mem => absurd mem List.not_mem_nil
      rw [List.prefix_nil.1 initial]
      exact plain
  | cons character text ih =>
      rw [List.forall_mem_cons, ← plain.write_iff]
      constructor
      · intro all
        have first : (s.write character).AllPlain := all [character] (by simp)
        refine ⟨first, ?_⟩
        rw [← s.write_color character, ← ih first]
        intro front initial
        exact all (character :: front) ((List.cons_prefix_cons).2 ⟨rfl, initial⟩)
      · rintro ⟨first, rest⟩ front initial
        rw [← s.write_color character] at rest
        cases front with
        | nil => exact plain
        | cons c front =>
            obtain ⟨rfl, shorter⟩ := List.cons_prefix_cons.1 initial
            exact (ih first).2 rest front shorter

/-- A call that writes nothing keeps cells plain. -/
theorem AllPlain.after (plain : s.AllPlain) {command : VgaCommand} (silent : command.text = []) :
    (s.after command).AllPlain := by
  cases command with
  | init => exact initial.clear_allPlain
  | clear => exact s.clear_allPlain
  | setColor foreground background => exact plain
  | setCursor row column =>
      rw [Screen.after, setCursor]
      split <;> exact plain
  | writeChar character => cases silent
  | writeString data terminated =>
      have none : data.takeWhile (· ≠ 0) = [] := silent
      rw [Screen.after, none]
      exact plain

end Screen

/-! ## Runs -/

/-- The calls with each string taken apart into its characters. -/
def allSteps (commands : List VgaCommand) : List VgaCommand := commands.flatMap VgaCommand.steps

/-- Characters with a sign are only written while the colour has all bits. -/
def WritesPlain (commands : List VgaCommand) : Prop :=
  ∀ front command, front ++ [command] <+: commands →
    ∀ character ∈ command.text, character ≠ 0x0A →
      Ink.Plain ⟨character, (Screen.ofCommands front).color⟩

/-- After each step of the calls, every cell has the colour that was in force when it
was written or blanked. -/
def ColorsKept (vga : Vga) (commands : List VgaCommand) : Prop :=
  ∀ front, front <+: allSteps commands →
    ∃ vga', vgaRun front vga = .ok () vga' ∧ vga'.Colored (Screen.ofCommands front)

section Run

variable {commands : List VgaCommand} {command : VgaCommand}

theorem writesPlain_concat :
    WritesPlain (commands ++ [command]) ↔ WritesPlain commands ∧
      ∀ character ∈ command.text, character ≠ 0x0A →
        Ink.Plain ⟨character, (Screen.ofCommands commands).color⟩ :=
  forall_prefix_concat

theorem Screen.foldl_writeChar (s : Screen) (text : List UInt8) :
    (text.map VgaCommand.writeChar).foldl after s = text.foldl write s := by
  rw [List.foldl_map]
  rfl

/-- The steps of a call lead where the call leads. -/
theorem Screen.foldl_steps (s : Screen) (command : VgaCommand) :
    command.steps.foldl after s = s.after command := by
  cases command with
  | writeString data terminated => exact s.foldl_writeChar _
  | _ => rfl

theorem Screen.ofCommands_allSteps (commands : List VgaCommand) :
    ofCommands (allSteps commands) = ofCommands commands := by
  have all : ∀ s : Screen, (allSteps commands).foldl after s = commands.foldl after s := by
    intro s
    induction commands generalizing s with
    | nil => rfl
    | cons command commands ih =>
        rw [allSteps, List.flatMap_cons, List.foldl_append, Screen.foldl_steps]
        exact ih _
  exact all initial

/-- The steps of one call keep cells plain where it writes plain characters. -/
theorem Screen.steps_allPlain_iff {s : Screen} (plain : s.AllPlain) (command : VgaCommand) :
    (∀ front, front <+: command.steps → (front.foldl after s).AllPlain) ↔
      ∀ character ∈ command.text, character ≠ 0x0A → Ink.Plain ⟨character, s.color⟩ := by
  have written : ∀ text : List UInt8, command.text = text →
      command.steps = text.map VgaCommand.writeChar →
      ((∀ front, front <+: command.steps → (front.foldl after s).AllPlain) ↔
        ∀ character ∈ command.text, character ≠ 0x0A → Ink.Plain ⟨character, s.color⟩) := by
    intro text same steps
    rw [steps, same, ← plain.text_iff]
    constructor
    · intro all front initial
      rw [← s.foldl_writeChar]
      exact all _ (initial.map _)
    · intro all front initial
      obtain ⟨part, initial', rfl⟩ := List.prefix_map_iff.1 initial
      rw [s.foldl_writeChar]
      exact all part initial'
  have silent : command.text = [] → command.steps = [command] →
      ((∀ front, front <+: command.steps → (front.foldl after s).AllPlain) ↔
        ∀ character ∈ command.text, character ≠ 0x0A → Ink.Plain ⟨character, s.color⟩) := by
    intro none steps
    rw [steps, none]
    refine iff_of_true (fun front initial => ?_) fun _ mem => absurd mem List.not_mem_nil
    rcases (@List.prefix_concat_iff _ _ [] _).1 initial with whole | earlier
    · rw [whole]
      exact plain.after none
    · rw [List.prefix_nil.1 earlier]
      exact plain
  cases command with
  | writeChar character => exact written _ rfl rfl
  | writeString data terminated => exact written _ rfl rfl
  | _ => exact silent rfl rfl

/-- Cells stay plain along the steps of calls that write plain characters. -/
theorem allPlain_iff :
    (∀ front, front <+: allSteps commands → (Screen.ofCommands front).AllPlain) ↔
      WritesPlain commands := by
  induction commands using List.reverseRecOn with
  | nil =>
      refine iff_of_true (fun front initial => ?_) forall_prefix_nil
      rw [List.prefix_nil.1 initial]
      exact Screen.initial.clear_allPlain
  | append_singleton commands command ih =>
      have split : allSteps (commands ++ [command]) = allSteps commands ++ command.steps := by
        rw [allSteps, List.flatMap_append, List.flatMap_singleton]
        rfl
      rw [split, forall_prefix_append, ih, writesPlain_concat]
      refine and_congr_right fun before => ?_
      have plain := (ih.2 before) _ (List.prefix_refl _)
      rw [Screen.ofCommands_allSteps] at plain
      rw [← Screen.steps_allPlain_iff plain]
      refine forall_congr' fun front => forall_congr' fun _ => ?_
      rw [Screen.ofCommands, List.foldl_append]
      exact iff_of_eq (congrArg (fun s => (front.foldl Screen.after s).AllPlain)
        (Screen.ofCommands_allSteps commands))

end Run

/-- Each cell of the frame buffer has the colour that was in force when it was written
or blanked, after each step of a run, if and only if characters from 0x80 on are only
written while all bits of the colour are set. -/
theorem colorsKept_iff (vga : Vga) (commands : List VgaCommand) :
    ColorsKept vga commands ↔ WritesPlain commands := by
  rw [← allPlain_iff]
  refine forall_congr' fun front => forall_congr' fun _ => ?_
  obtain ⟨vga', run, shown⟩ := vga.displays_ofCommands front
  rw [run]
  exact ⟨fun ⟨_, same, colored⟩ => by cases same; exact shown.colored_iff.1 colored,
    fun plain => ⟨vga', rfl, shown.colored_iff.2 plain⟩⟩

/-- The degree sign of the character set, 0xF8, written in light grey on black. -/
theorem sign_covers_color :
    ¬ ColorsKept ⟨fun _ => 0, 0, 0, 0, []⟩ [.writeChar 0xF8] := by
  intro kept
  obtain ⟨vga', run, colored⟩ := kept [.writeChar 0xF8] (List.prefix_refl _)
  obtain ⟨vga₁, run₁, shown⟩ := Vga.displays_ofCommands ⟨fun _ => 0, 0, 0, 0, []⟩ [.writeChar 0xF8]
  cases run.symm.trans run₁
  have plain := shown.colored_iff.1 colored 0 (by decide)
  exact absurd plain (by decide)

end ArkoiOs
