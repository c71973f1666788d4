import ArkoiOs.Kstdio.Kprintf

/-!
# Panics

`kpanic` prints where it was called and its message, and then stops the kernel.  Wherever the
screen was, the report stands at the end of what it shows.
-/

namespace ArkoiOs

/-- The format of the first line of a panic. -/
def panicPlace : List UInt8 := ascii "Panic occurred at \"%s:%u\" in \"%s\"!\n".toList

def panicEnd : List UInt8 := ascii "\n".toList

/-- The literals of `kpanic`. -/
structure PanicLiterals (ι : Type) where
  place : Pointer ι
  newline : Pointer ι

section Panic

variable {ι : Type} [DecidableEq ι]

/-- `kpanic`; the loop behind the prints, with interrupts disabled, has no end. -/
def kpanicReport (fuel : ℕ) (frame : PrintFrame ι) (literals : PanicLiterals ι)
    (format file : Pointer ι) (line : UInt32) (function : Pointer ι) (args : List (VaArg ι)) :
    KernelM (Terminal ι) Unit := do
  let _ ← kprintf fuel frame (some literals.place)
    [.string (some file), .word line, .string (some function)]
  let _ ← kvprintf fuel frame (some format) args
  let _ ← kprintf fuel frame (some literals.newline) []
  throw .hang

theorem panicPlace_matches (file function : List UInt8) (line : UInt32) :
    (blocks panicPlace [.string (some file), .word line, .string (some function)]).isSome := by
  rw [← blocks_blank]
  change (blocks panicPlace [.string none, .word 0, .string none]).isSome
  decide +kernel

theorem printed_panicEnd : printed panicEnd [] = panicEnd := by decide +kernel

/-- The strings of a panic are terminated and apart from the buffer, and its message matches
its arguments. -/
structure PanicPrepared (memory : ByteMemory ι) (buffer : Pointer ι) (literals : PanicLiterals ι)
    (format file function : Pointer ι) (args : List (VaArg ι)) (text fileText functionText :
    List UInt8) (arguments : List Argument) : Prop where
  place : Readable memory buffer printfBufferSize.toNat literals.place panicPlace
  newline : Readable memory buffer printfBufferSize.toNat literals.newline panicEnd
  format : Readable memory buffer printfBufferSize.toNat format text
  file : Readable memory buffer printfBufferSize.toNat file fileText
  function : Readable memory buffer printfBufferSize.toNat function functionText
  held : List.Forall₂ (ArgHolds memory buffer printfBufferSize.toNat) args arguments
  matching : (blocks text arguments).isSome

/-- A panic adds its place, its message and a newline to the document on the screen, and the
kernel stops.  All of the place and all of the message are there exactly if they have at most
255 bytes and no zero byte. -/
theorem kpanic_reports {memory : ByteMemory ι} {vga : Vga} {d : Document} {fuel : ℕ}
    {frame : PrintFrame ι} {literals : PanicLiterals ι} {format file function : Pointer ι}
    {args : List (VaArg ι)} {text fileText functionText : List UInt8} {arguments : List Argument}
    (enough : 2 ^ 32 ≤ fuel) (usable : frame.Usable memory)
    (prepared : PanicPrepared memory frame.buffer literals format file function args text fileText
      functionText arguments) (line : UInt32) (shows : vga.Shows d) :
    (∃ memory' vga', kpanicReport fuel frame literals format file line function args
        ⟨memory, vga⟩ = .error .hang ⟨memory', vga'⟩ ∧
      vga'.Shows ((printed panicPlace [.string (some fileText), .word line,
        .string (some functionText)] ++ printed text arguments ++ panicEnd).foldl
          Document.write d) ∧
      frame.Keeps memory memory') ∧
    ∀ part ∈ [(panicPlace, [.string (some fileText), .word line, .string (some functionText)]),
        (text, arguments)], ∀ rendered, render part.1 part.2 = some rendered →
      (printed part.1 part.2 = rendered ↔ rendered.length ≤ 255 ∧ 0 ∉ rendered) := by
  obtain ⟨placePieces, placed⟩ :=
    Option.isSome_iff_exists.1 (panicPlace_matches fileText functionText line)
  obtain ⟨pieces, matched⟩ := Option.isSome_iff_exists.1 prepared.matching
  let place : PrintCall ι :=
    ⟨literals.place, [.string (some file), .word line, .string (some function)], panicPlace,
      [.string (some fileText), .word line, .string (some functionText)], placePieces, placed⟩
  let message : PrintCall ι := ⟨format, args, text, arguments, pieces, matched⟩
  let newline : PrintCall ι := ⟨literals.newline, [], panicEnd, [], [panicEnd], by decide +kernel⟩
  have calls : ∀ call ∈ [place, message, newline], call.Prepared memory frame.buffer := by
    simp only [List.forall_mem_cons]
    exact ⟨⟨prepared.place, .cons (.string prepared.file) (.cons (.word line)
      (.cons (.string prepared.function) .nil))⟩, ⟨prepared.format, prepared.held⟩,
      ⟨prepared.newline, .nil⟩, nofun⟩
  obtain ⟨memory', vga', run, shows', -, kept⟩ := runPrints_shows enough usable calls shows
  refine ⟨⟨memory', vga', ?_, ?_, kept⟩, fun part _ rendered => printed_eq_iff⟩
  · have whole : kpanicReport fuel frame literals format file line function args = (do
        let _ ← runPrints fuel frame [place, message, newline]
        throw .hang) := by
      unfold kpanicReport runPrints kprintf
      simp only [List.mapM_cons, List.mapM_nil, bind_assoc, pure_bind]
      rfl
    rw [whole, Machine.bind_of_ok run]
    rfl
  · have last : newline.shown = panicEnd := newline.shown_eq.trans printed_panicEnd
    simp only [List.flatMap_cons, List.flatMap_nil, List.append_nil, place.shown_eq,
      message.shown_eq, last] at shows'
    rw [List.append_assoc]
    exact shows'

end Panic

/-- A buffer, `"NULL"`, `"%s"`, `"abc"` and the literals of a panic. -/
def panicMemory : ByteMemory ℕ :=
  FormatCall.objects [List.replicate 256 0, missingText ++ [0], ascii ['%', 's', '\x00'],
    ascii ['a', 'b', 'c', '\x00'], panicPlace ++ [0], panicEnd ++ [0]]

theorem panicMemory_readable {object : ℕ} {text : List UInt8} (other : object ≠ 0)
    (holds : panicMemory.Holds ⟨object, 0⟩ (text ++ [0])) (noZero : 0 ∉ text)
    (bound : text.length < 2 ^ 32) : Readable panicMemory ⟨0, 0⟩ 256 ⟨object, 0⟩ text :=
  ⟨holds, noZero, bound, Or.inl other⟩

/-- `kpanic("%s", "abc", 7, "abc", "abc")`. -/
theorem stringPanic_reports : ∃ vga memory' vga',
    kpanicReport (2 ^ 32) printFrame ⟨⟨4, 0⟩, ⟨5, 0⟩⟩ ⟨2, 0⟩ ⟨3, 0⟩ 7 ⟨3, 0⟩
        [.string (some ⟨3, 0⟩)] ⟨panicMemory, vga⟩ = .error .hang ⟨memory', vga'⟩ ∧
      vga'.Shows (.ofText (ascii "Panic occurred at \"abc:7\" in \"abc\"!\nabc\n".toList)) := by
  obtain ⟨vga, -, shows⟩ := Vga.clear_shows ⟨fun _ => 0, 0, 0, 0, []⟩
  have usable : printFrame.Usable panicMemory := ⟨by decide +kernel,
    panicMemory_readable (by decide) (by decide +kernel) (by decide) (by decide)⟩
  have format : Readable panicMemory ⟨0, 0⟩ 256 ⟨2, 0⟩ (ascii ['%', 's']) :=
    panicMemory_readable (by decide) (by decide +kernel) (by decide) (by decide)
  have string : Readable panicMemory ⟨0, 0⟩ 256 ⟨3, 0⟩ (ascii ['a', 'b', 'c']) :=
    panicMemory_readable (by decide) (by decide +kernel) (by decide) (by decide)
  have place : Readable panicMemory ⟨0, 0⟩ 256 ⟨4, 0⟩ panicPlace :=
    panicMemory_readable (by decide) (by decide +kernel) (by decide +kernel) (by decide +kernel)
  have newline : Readable panicMemory ⟨0, 0⟩ 256 ⟨5, 0⟩ panicEnd :=
    panicMemory_readable (by decide) (by decide +kernel) (by decide +kernel) (by decide +kernel)
  have prepared : PanicPrepared panicMemory ⟨0, 0⟩ ⟨⟨4, 0⟩, ⟨5, 0⟩⟩ ⟨2, 0⟩ ⟨3, 0⟩ ⟨3, 0⟩
      [.string (some ⟨3, 0⟩)] (ascii ['%', 's']) (ascii ['a', 'b', 'c']) (ascii ['a', 'b', 'c'])
      [.string (some (ascii ['a', 'b', 'c']))] :=
    ⟨place, newline, format, string, string, .cons (.string string) .nil, by decide⟩
  obtain ⟨⟨memory', vga', run, shows', -⟩, -⟩ :=
    kpanic_reports (Nat.le_refl _) usable prepared 7 shows
  have text : printed panicPlace [.string (some (ascii ['a', 'b', 'c'])), .word 7,
      .string (some (ascii ['a', 'b', 'c']))] ++
        printed (ascii ['%', 's']) [.string (some (ascii ['a', 'b', 'c']))] ++ panicEnd =
      ascii "Panic occurred at \"abc:7\" in \"abc\"!\nabc\n".toList := by
    decide +kernel
  rw [text] at shows'
  exact ⟨vga, memory', vga', run, shows'⟩

end ArkoiOs
