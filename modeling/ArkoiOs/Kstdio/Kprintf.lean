import Mathlib.Data.List.Forall2
import Mathlib.Data.List.TakeWhile
import ArkoiOs.Kstdio.Kvsnprintf
import ArkoiOs.Vga.Document

/-!
# Printing

`kvprintf` formats into a buffer on its stack and writes the string in it to the screen.
Whatever was printed before, the screen goes on with the blocks of each format that have room
in 255 bytes, up to a zero byte.
-/

namespace ArkoiOs

open AtomicBlocks

/-! ## The model -/

/-- Memory and the screen. -/
structure Terminal (ι : Type) where
  memory : ByteMemory ι
  vga : Vga

section Model

variable {ι : Type}

/-- Run code on memory. -/
def Terminal.onMemory {α : Type} (x : KernelM (ByteMemory ι) α) : KernelM (Terminal ι) α :=
  Machine.zoom (fun s => some s.memory) (fun s memory => { s with memory := memory })
    .nullDereference x

/-- Run code on the screen. -/
def Terminal.onVga {α : Type} (x : KernelM Vga α) : KernelM (Terminal ι) α :=
  Machine.zoom (fun s => some s.vga) (fun s vga => { s with vga := vga }) .nullDereference x

/-- `vga_write_string` of the string at a pointer. -/
def writeStringAt : ℕ → Pointer ι → KernelM (Terminal ι) Unit
  | 0, _ => throw .hang
  | fuel + 1, data => do
      let character ← Terminal.onMemory (loadByte data)
      if character ≠ 0 then do
        Terminal.onVga (vgaWriteChar character)
        writeStringAt fuel (data.advance 1)
      else pure ()

/-- `PRINTF_BUFFER_SIZE`. -/
def printfBufferSize : UInt32 := 256

/-- What the compiler gives the code: the place of the buffer on the stack, the literal for a
null string, and what the local cursor holds at first. -/
structure PrintFrame (ι : Type) where
  buffer : Pointer ι
  nullText : Pointer ι
  uninitialized : Kcursor ι

variable [DecidableEq ι] (fuel : ℕ) (frame : PrintFrame ι)

/-- `kvprintf`. -/
def kvprintf (format : Option (Pointer ι)) (args : List (VaArg ι)) :
    KernelM (Terminal ι) UInt32 := do
  let written ← Terminal.onMemory (kvsnprintf fuel frame.nullText frame.uninitialized (some frame.buffer)
    printfBufferSize format args)
  if written ≠ 0 then writeStringAt fuel frame.buffer
  pure written

/-- `kprintf`, which passes its arguments on. -/
def kprintf (format : Option (Pointer ι)) (args : List (VaArg ι)) : KernelM (Terminal ι) UInt32 :=
  kvprintf fuel frame format args

end Model

/-! ## Arguments that match -/

/-- An argument as far as it matters whether it matches. -/
def Argument.blank : Argument → Argument
  | .word _ => .word 0
  | .string _ => .string none

theorem convert_blank (specifier : UInt8) (alternateForm : Bool) (args : List Argument) :
    (convert specifier alternateForm (args.map Argument.blank)).map Prod.snd =
      (convert specifier alternateForm args).map fun converted =>
        converted.2.map Argument.blank := by
  have word : ∀ text text' : UInt32 → List UInt8,
      (ofWord text (args.map Argument.blank)).map Prod.snd =
        (ofWord text' args).map fun converted => converted.2.map Argument.blank := by
    intro text text'
    rcases args with _ | ⟨⟨value⟩ | ⟨string⟩, args⟩ <;> rfl
  have string : (ofString (args.map Argument.blank)).map Prod.snd =
      (ofString args).map fun converted => converted.2.map Argument.blank := by
    rcases args with _ | ⟨⟨value⟩ | ⟨string⟩, args⟩ <;> rfl
  unfold convert
  split_ifs
  all_goals first
    | exact word _ _
    | exact string
    | rfl

theorem isSome_bind_some {α β : Type} (x : Option α) (f : α → β) :
    (x >>= fun a => some (f a)).isSome = x.isSome := by
  cases x <;> rfl

/-- A conversion and what follows it. -/
theorem conversion_blank (specifier : UInt8) (alternateForm : Bool) {format : List UInt8}
    (ih : ∀ args, (blocks format (args.map Argument.blank)).isSome = (blocks format args).isSome)
    (args : List Argument) :
    (do
      let (first, args) ← convert specifier alternateForm (args.map Argument.blank)
      let rest ← blocks format args
      some (first ++ rest)).isSome =
    (do
      let (first, args) ← convert specifier alternateForm args
      let rest ← blocks format args
      some (first ++ rest)).isSome := by
  have left := convert_blank specifier alternateForm args
  cases converted : convert specifier alternateForm args with
  | none =>
      rw [converted, Option.map_none, Option.map_eq_none_iff] at left
      rw [left]
  | some result =>
      rw [converted, Option.map_some, Option.map_eq_some_iff] at left
      obtain ⟨blank, converted', same⟩ := left
      have rest := ih result.2
      rw [← same] at rest
      rw [converted']
      exact ((isSome_bind_some _ _).trans rest).trans (isSome_bind_some _ _).symm

/-- Whether arguments match a format only depends on their kinds. -/
theorem blocks_blank (format : List UInt8) (args : List Argument) :
    (blocks format (args.map Argument.blank)).isSome = (blocks format args).isSome := by
  fun_induction blocks format args with
  | case1 args => rfl
  | case2 character format args plain ih =>
      rw [blocks_plain plain]
      exact ((isSome_bind_some _ _).trans ih).trans (isSome_bind_some _ _).symm
  | case3 character args percent =>
      rw [not_not.1 percent, blocks_percent]
  | case4 character args percent specifier format plain ih =>
      rw [not_not.1 percent, blocks_conversion plain]
      exact conversion_blank specifier false ih args
  | case5 character args percent flag alternate =>
      rw [not_not.1 percent, not_not.1 alternate, blocks_flag]
  | case6 character args percent flag alternate specifier format ih =>
      rw [not_not.1 percent, not_not.1 alternate, blocks_alternate]
      exact conversion_blank specifier true ih args

/-! ## What is printed -/

/-- What comes to the screen of a format and arguments that match it: the blocks that have
room in 255 bytes, up to a zero byte. -/
def printed (format : List UInt8) (args : List Argument) : List UInt8 :=
  (fill 255 ((blocks format args).getD [])).takeWhile (· ≠ 0)

/-- All of a text comes to the screen exactly if it has at most 255 bytes and no zero byte. -/
theorem printed_eq_iff {format rendered : List UInt8} {args : List Argument}
    (text : render format args = some rendered) :
    printed format args = rendered ↔ rendered.length ≤ 255 ∧ 0 ∉ rendered := by
  obtain ⟨pieces, matching, rfl⟩ := Option.map_eq_some_iff.1 text
  have shown : printed format args = (fill 255 pieces).takeWhile (· ≠ 0) := by
    rw [printed, matching]
    rfl
  rw [shown]
  constructor
  · intro all
    have zeroless : 0 ∉ pieces.flatten := by
      intro zero
      rw [← all] at zero
      have stop := List.mem_takeWhile_imp (p := fun character => decide (character ≠ 0)) zero
      exact of_decide_eq_true stop rfl
    refine ⟨?_, zeroless⟩
    have short := (List.takeWhile_prefix (· ≠ (0 : UInt8)) (l := fill 255 pieces)).length_le
    rw [← all]
    exact short.trans (length_fill_le 255 pieces)
  · rintro ⟨fits, zeroless⟩
    rw [fill_of_le fits]
    exact List.takeWhile_eq_self_iff.2 fun character mem =>
      decide_eq_true fun zero => zeroless (zero ▸ mem)

/-- A call of `kprintf` with a format and arguments that match it. -/
structure PrintCall (ι : Type) where
  format : Pointer ι
  args : List (VaArg ι)
  text : List UInt8
  arguments : List Argument
  pieces : List (List UInt8)
  matching : blocks text arguments = some pieces

namespace PrintCall

variable {ι : Type} (call : PrintCall ι)

/-- The strings of the call are terminated and apart from the buffer. -/
structure Prepared (memory : ByteMemory ι) (buffer : Pointer ι) : Prop where
  readable : Readable memory buffer printfBufferSize.toNat call.format call.text
  held : List.Forall₂ (ArgHolds memory buffer printfBufferSize.toNat) call.args call.arguments

/-- The characters that have room in the buffer. -/
def produced : List UInt8 := fill (printfBufferSize.toNat - 1) call.pieces

/-- The characters that come to the screen. -/
def shown : List UInt8 := call.produced.takeWhile (· ≠ 0)

theorem shown_eq : call.shown = printed call.text call.arguments := by
  unfold shown produced printed
  rw [call.matching]
  rfl

/-- All of the text comes to the screen exactly if it has at most 255 bytes and no zero byte. -/
theorem shown_eq_iff :
    call.shown = call.pieces.flatten ↔
      call.pieces.flatten.length ≤ 255 ∧ 0 ∉ call.pieces.flatten := by
  have text : render call.text call.arguments = some call.pieces.flatten := by
    rw [render, call.matching]
    rfl
  rw [call.shown_eq]
  exact printed_eq_iff text

end PrintCall

section Printing

variable {ι : Type} [DecidableEq ι] {memory : ByteMemory ι} {vga : Vga} {d : Document}
  {buffer p : Pointer ι} {fuel size : ℕ} {data text bytes : List UInt8}

omit [DecidableEq ι] in
/-- A terminated string comes to the screen. -/
theorem writeStringAt_shows (holds : memory.Holds p data) (terminated : 0 ∈ data)
    (enough : data.length ≤ fuel) (shows : vga.Shows d) :
    ∃ vga', writeStringAt fuel p ⟨memory, vga⟩ = .ok () ⟨memory, vga'⟩ ∧
      vga'.Shows ((data.takeWhile (· ≠ 0)).foldl Document.write d) := by
  induction data generalizing p vga d fuel with
  | nil => exact absurd terminated List.not_mem_nil
  | cons character data ih =>
      obtain ⟨first, rest⟩ := ByteMemory.holds_cons.1 holds
      cases fuel with
      | zero => cases enough
      | succ fuel =>
          have read : Terminal.onMemory (loadByte p) (⟨memory, vga⟩ : Terminal ι) = .ok character _ :=
            Machine.zoom_of_ok rfl (loadByte_of_some first)
          rw [writeStringAt, Machine.bind_of_ok read]
          by_cases more : character ≠ 0
          · obtain ⟨vga₁, written, shows₁⟩ := shows.writeChar character
            obtain ⟨vga', run, shows'⟩ := ih rest ((List.mem_cons.1 terminated).resolve_left more.symm)
              (Nat.le_of_succ_le_succ enough) shows₁
            have shown : Terminal.onVga (vgaWriteChar character) (⟨memory, vga⟩ : Terminal ι) =
                .ok () ⟨memory, vga₁⟩ := Machine.zoom_of_ok rfl written
            refine ⟨vga', ?_, ?_⟩
            · rw [if_pos more, Machine.bind_of_ok shown]
              exact run
            · rw [List.takeWhile_cons_of_pos (by simpa using more)]
              exact shows'
          · refine ⟨vga, ?_, ?_⟩
            · rw [if_neg more]
              rfl
            · rw [List.takeWhile_cons_of_neg (by simpa using more)]
              exact shows

/-- Strings apart from the buffer stay as they are when it is written. -/
theorem Readable.overwrite (h : Readable memory buffer size p text) (inside : bytes.length ≤ size) :
    Readable (memory.overwrite buffer bytes) buffer size p text := by
  refine { h with holds := h.holds.overwrite (h.apart.part (i := 0) (j := 0) ?_ ?_) }
  · rw [List.length_append]
    exact (Nat.zero_add _).le
  · rw [Nat.zero_add]
    exact inside

/-- A terminator behind the string stops nothing in it. -/
theorem takeWhile_terminated (string : List UInt8) :
    (string ++ [0]).takeWhile (· ≠ 0) = string.takeWhile (· ≠ 0) := by
  have none : [(0 : UInt8)].takeWhile (· ≠ 0) = [] := rfl
  rw [List.takeWhile_append, none, List.append_nil]
  split
  · rename_i whole
    exact ((List.takeWhile_prefix _).eq_of_length whole).symm
  · rfl

theorem PrintCall.Prepared.overwrite {call : PrintCall ι} (h : call.Prepared memory buffer)
    (inside : bytes.length ≤ printfBufferSize.toNat) :
    call.Prepared (memory.overwrite buffer bytes) buffer := by
  refine ⟨h.readable.overwrite inside, List.Forall₂.imp (fun arg argument holds => ?_) h.held⟩
  cases holds with
  | word value => exact .word value
  | missing => exact .missing
  | string readable => exact .string (readable.overwrite inside)

/-- One call: the buffer holds what was produced, and the screen goes on with it. -/
theorem PrintCall.kprintf_shows {frame : PrintFrame ι} {call : PrintCall ι}
    (enough : 2 ^ 32 ≤ fuel) (room : memory.Room frame.buffer printfBufferSize.toNat)
    (missing : Readable memory frame.buffer printfBufferSize.toNat frame.nullText missingText)
    (prepared : call.Prepared memory frame.buffer) (shows : vga.Shows d) :
    ∃ vga', kprintf fuel frame (some call.format) call.args ⟨memory, vga⟩ =
        .ok (UInt32.ofNat (call.produced.length + 1))
          ⟨memory.overwrite frame.buffer (call.produced ++ [0]), vga'⟩ ∧
      vga'.Shows (call.shown.foldl Document.write d) := by
  let formatted : FormatCall ι :=
    { memory := memory, buffer := frame.buffer, size := printfBufferSize, format := call.format
      text := call.text, args := call.args, arguments := call.arguments, pieces := call.pieces
      nullText := frame.nullText, room := room, readable := prepared.readable, missing := missing
      held := prepared.held, matching := call.matching }
  have run := formatted.run_eq enough frame.uninitialized (by decide : 2 ≤ printfBufferSize.toNat)
  have written : Terminal.onMemory (kvsnprintf fuel frame.nullText frame.uninitialized (some frame.buffer)
      printfBufferSize (some call.format) call.args) (⟨memory, vga⟩ : Terminal ι) =
        .ok (UInt32.ofNat (call.produced.length + 1))
          ⟨memory.overwrite frame.buffer (call.produced ++ [0]), vga⟩ :=
    Machine.zoom_of_ok rfl run
  have short : call.produced.length ≤ 255 := length_fill_le _ _
  have nonzero : UInt32.ofNat (call.produced.length + 1) ≠ 0 := by
    intro zero
    have value := congrArg UInt32.toNat zero
    rw [UInt32.toNat_ofNat_of_lt' (by change _ < 2 ^ 32; omega), UInt32.toNat_zero] at value
    omega
  have holds := ByteMemory.holds_overwrite memory frame.buffer (call.produced ++ [0])
  obtain ⟨vga', shown, shows'⟩ := writeStringAt_shows holds (by simp)
    (by rw [List.length_append, List.length_singleton]; omega : _ ≤ fuel) shows
  refine ⟨vga', ?_, ?_⟩
  · unfold kprintf kvprintf
    rw [Machine.bind_of_ok written, if_pos nonzero, Machine.bind_of_ok shown]
    rfl
  · rw [takeWhile_terminated] at shows'
    exact shows'

/-- Of a run of calls. -/
def runPrints (fuel : ℕ) (frame : PrintFrame ι) (calls : List (PrintCall ι)) :
    KernelM (Terminal ι) (List UInt32) :=
  calls.mapM fun call => kprintf fuel frame (some call.format) call.args

/-- The buffer is there, and the literal for a null string is terminated and apart from it. -/
structure PrintFrame.Usable (frame : PrintFrame ι) (memory : ByteMemory ι) : Prop where
  room : memory.Room frame.buffer printfBufferSize.toNat
  missing : Readable memory frame.buffer printfBufferSize.toNat frame.nullText missingText

/-- The bytes apart from the buffer are the same. -/
def PrintFrame.Keeps (frame : PrintFrame ι) (before after : ByteMemory ι) : Prop :=
  ∀ q : Pointer ι, q.Apart 1 frame.buffer printfBufferSize.toNat → after.byte q = before.byte q

/-- One call after the other, each with the same buffer. -/
theorem runPrints_shows {frame : PrintFrame ι} {calls : List (PrintCall ι)}
    (enough : 2 ^ 32 ≤ fuel) (usable : frame.Usable memory)
    (prepared : ∀ call ∈ calls, call.Prepared memory frame.buffer) (shows : vga.Shows d) :
    ∃ memory' vga', runPrints fuel frame calls ⟨memory, vga⟩ =
        .ok (calls.map fun call => UInt32.ofNat (call.produced.length + 1)) ⟨memory', vga'⟩ ∧
      vga'.Shows ((calls.flatMap PrintCall.shown).foldl Document.write d) ∧
      frame.Usable memory' ∧ frame.Keeps memory memory' := by
  induction calls generalizing memory vga d with
  | nil => exact ⟨memory, vga, rfl, shows, usable, fun _ _ => rfl⟩
  | cons call calls ih =>
      obtain ⟨here, later⟩ := List.forall_mem_cons.1 prepared
      obtain ⟨vga₁, run, shows₁⟩ := call.kprintf_shows enough usable.room usable.missing here shows
      have short : (call.produced ++ [0]).length ≤ printfBufferSize.toNat := by
        have fits : call.produced.length ≤ 255 := length_fill_le _ _
        rw [List.length_append]
        exact Nat.succ_le_succ fits
      have inside : memory.Room frame.buffer (call.produced ++ [0]).length :=
        usable.room.part (i := 0) (by omega)
      obtain ⟨memory', vga', runs, shows', usable', kept⟩ :=
        ih ⟨(ByteMemory.room_overwrite inside).2 usable.room, usable.missing.overwrite short⟩
          (fun call mem => (later call mem).overwrite short) shows₁
      refine ⟨memory', vga', ?_, ?_, usable', fun q apart => ?_⟩
      · unfold runPrints
        rw [List.mapM_cons, Machine.bind_of_ok run]
        exact (Machine.bind_of_ok runs).trans rfl
      · rw [List.flatMap_cons, List.foldl_append]
        exact shows'
      · rw [kept q apart]
        refine ByteMemory.byte_overwrite_of_apart ?_
        exact apart.part (i := 0) (j := 0) le_rfl (by omega)

/-- Any run of calls leaves the end of the document on the screen that all they show makes,
writes nothing apart from the buffer, and shows all of a text exactly if it has at most 255
bytes and no zero byte. -/
theorem kprintf_calls_show {frame : PrintFrame ι} {calls : List (PrintCall ι)}
    (enough : 2 ^ 32 ≤ fuel) (usable : frame.Usable memory)
    (prepared : ∀ call ∈ calls, call.Prepared memory frame.buffer) (shows : vga.Shows d) :
    (∃ memory' vga', runPrints fuel frame calls ⟨memory, vga⟩ =
        .ok (calls.map fun call => UInt32.ofNat (call.produced.length + 1)) ⟨memory', vga'⟩ ∧
      vga'.Shows ((calls.flatMap PrintCall.shown).foldl Document.write d) ∧
      frame.Keeps memory memory') ∧
    ∀ call ∈ calls, call.shown = call.pieces.flatten ↔
      call.pieces.flatten.length ≤ 255 ∧ 0 ∉ call.pieces.flatten := by
  obtain ⟨memory', vga', run, shows', -, kept⟩ := runPrints_shows enough usable prepared shows
  exact ⟨⟨memory', vga', run, shows', kept⟩, fun call _ => call.shown_eq_iff⟩

end Printing

/-- A buffer, `"NULL"`, `"%s"` and `"abc"`. -/
def printMemory : ByteMemory ℕ :=
  FormatCall.objects [List.replicate 256 0, missingText ++ [0], ascii ['%', 's', '\x00'],
    ascii ['a', 'b', 'c', '\x00']]

def printFrame : PrintFrame ℕ := ⟨⟨0, 0⟩, ⟨1, 0⟩, FormatCall.someCursor⟩

theorem printFrame_usable : printFrame.Usable printMemory :=
  ⟨by decide +kernel, ⟨by decide +kernel, by decide, by decide, Or.inl (by decide)⟩⟩

theorem printMemory_format : Readable printMemory ⟨0, 0⟩ 256 ⟨2, 0⟩ (ascii ['%', 's']) :=
  ⟨by decide +kernel, by decide, by decide, Or.inl (by decide)⟩

theorem printMemory_string : Readable printMemory ⟨0, 0⟩ 256 ⟨3, 0⟩ (ascii ['a', 'b', 'c']) :=
  ⟨by decide +kernel, by decide, by decide, Or.inl (by decide)⟩

theorem stringPrint_matches : blocks (ascii ['%', 's']) [.string (some (ascii ['a', 'b', 'c']))] =
    some [ascii ['a', 'b', 'c']] := by
  decide

/-- `kprintf("%s", "abc")`. -/
def stringPrint : PrintCall ℕ where
  format := ⟨2, 0⟩
  args := [.string (some ⟨3, 0⟩)]
  text := ascii ['%', 's']
  arguments := [.string (some (ascii ['a', 'b', 'c']))]
  pieces := [ascii ['a', 'b', 'c']]
  matching := stringPrint_matches

theorem stringPrint_shows : ∃ vga memory' vga',
    runPrints (2 ^ 32) printFrame [stringPrint, stringPrint] ⟨printMemory, vga⟩ =
        .ok [4, 4] ⟨memory', vga'⟩ ∧
      vga'.Shows (.ofText (ascii ['a', 'b', 'c', 'a', 'b', 'c'])) := by
  obtain ⟨vga, -, shows⟩ := Vga.clear_shows ⟨fun _ => 0, 0, 0, 0, []⟩
  have prepared : ∀ call ∈ [stringPrint, stringPrint], call.Prepared printMemory ⟨0, 0⟩ := by
    intro call mem
    simp only [List.mem_cons, List.not_mem_nil, or_false, or_self] at mem
    subst mem
    exact ⟨printMemory_format, .cons (.string printMemory_string) .nil⟩
  obtain ⟨⟨memory', vga', run, shows', -⟩, -⟩ :=
    kprintf_calls_show (Nat.le_refl _) printFrame_usable prepared shows
  exact ⟨vga, memory', vga', run, shows'⟩

end ArkoiOs
