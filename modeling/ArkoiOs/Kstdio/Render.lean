import ArkoiOs.Library.AtomicBlocks
import Mathlib.Data.Nat.Notation

/-!
# What a format means

The text of a format and its arguments, by recursion on the format.  A character
or a digit is a block of its own and a string argument is one block; the text is
all blocks together.
-/

namespace ArkoiOs

open AtomicBlocks

/-- An argument as the text sees it: a word, or a string that may be missing. -/
inductive Argument
  | word (value : UInt32)
  | string (text : Option (List UInt8))
  deriving DecidableEq, Repr

/-- The bytes of characters. -/
def ascii (text : List Char) : List UInt8 := text.map Char.toUInt8

/-- A number in decimal. -/
def decimal (n : ℕ) : List UInt8 := ascii (Nat.toDigits 10 n)

/-- A signed number in decimal. -/
def signedDecimal (n : ℤ) : List UInt8 :=
  if n < 0 then '-'.toUInt8 :: decimal n.natAbs else decimal n.natAbs

/-- A number in hexadecimal. -/
def hexadecimal (uppercase : Bool) (n : ℕ) : List UInt8 :=
  ascii (if uppercase then (Nat.toDigits 16 n).map Char.toUpper else Nat.toDigits 16 n)

/-- The prefix of the alternate form. -/
def hexPrefix (uppercase : Bool) : List UInt8 := ascii ['0', if uppercase then 'X' else 'x']

/-- An address. -/
def addressText (n : ℕ) : List UInt8 := hexPrefix false ++ ascii ((Nat.toDigits 16 n).leftpad 8 '0')

/-- The text for a missing string. -/
def missingText : List UInt8 := ascii ['N', 'U', 'L', 'L']

/-- A conversion that takes a word. -/
def ofWord (text : UInt32 → List UInt8) :
    List Argument → Option (List (List UInt8) × List Argument)
  | .word value :: args => some (singles (text value), args)
  | _ => none

/-- The conversion that takes a string. -/
def ofString : List Argument → Option (List (List UInt8) × List Argument)
  | .string text :: args => some ([text.getD missingText], args)
  | _ => none

/-- What a specifier stands for, and the arguments it leaves. -/
def convert (specifier : UInt8) (alternateForm : Bool) (args : List Argument) :
    Option (List (List UInt8) × List Argument) :=
  if specifier = 'd'.toUInt8 ∨ specifier = 'i'.toUInt8 then
    ofWord (fun value => signedDecimal value.toInt32.toInt) args
  else if specifier = 'u'.toUInt8 then ofWord (fun value => decimal value.toNat) args
  else if specifier = 'x'.toUInt8 ∨ specifier = 'X'.toUInt8 then
    let uppercase : Bool := specifier = 'X'.toUInt8
    ofWord (fun value => (if alternateForm then hexPrefix uppercase else []) ++
      hexadecimal uppercase value.toNat) args
  else if specifier = 'p'.toUInt8 then ofWord (fun value => addressText value.toNat) args
  else if specifier = 's'.toUInt8 then ofString args
  else if specifier = 'c'.toUInt8 then ofWord (fun value => [value.toUInt8]) args
  else if specifier = '%'.toUInt8 then some ([['%'.toUInt8]], args)
  else some (singles ['%'.toUInt8, specifier], args)

/-- The blocks of a format; the arguments may not be those it takes. -/
def blocks : List UInt8 → List Argument → Option (List (List UInt8))
  | [], _ => some []
  | character :: format, args =>
      if character ≠ '%'.toUInt8 then do
        let rest ← blocks format args
        some ([character] :: rest)
      else
        match format with
        | [] => some []
        | specifier :: format =>
            if specifier ≠ '#'.toUInt8 then do
              let (first, args) ← convert specifier false args
              let rest ← blocks format args
              some (first ++ rest)
            else
              match format with
              | [] => some []
              | specifier :: format => do
                  let (first, args) ← convert specifier true args
                  let rest ← blocks format args
                  some (first ++ rest)

section Blocks

variable {character specifier : UInt8} {format : List UInt8} {args : List Argument}

theorem blocks_plain (plain : character ≠ '%'.toUInt8) :
    blocks (character :: format) args = (do
      let rest ← blocks format args
      some ([character] :: rest)) := by
  rw [blocks.eq_def]
  exact if_pos plain

theorem blocks_percent : blocks ['%'.toUInt8] args = some [] := by
  rw [blocks.eq_def]
  exact if_neg (not_not.2 rfl)

theorem blocks_flag : blocks ['%'.toUInt8, '#'.toUInt8] args = some [] := by
  rw [blocks.eq_def]
  exact if_neg (not_not.2 rfl)

theorem blocks_conversion (plain : specifier ≠ '#'.toUInt8) :
    blocks ('%'.toUInt8 :: specifier :: format) args = (do
      let (first, args) ← convert specifier false args
      let rest ← blocks format args
      some (first ++ rest)) := by
  rw [blocks.eq_def]
  exact (if_neg (not_not.2 rfl)).trans (if_pos plain)

theorem blocks_alternate :
    blocks ('%'.toUInt8 :: '#'.toUInt8 :: specifier :: format) args = (do
      let (first, args) ← convert specifier true args
      let rest ← blocks format args
      some (first ++ rest)) := by
  rw [blocks.eq_def]
  exact (if_neg (not_not.2 rfl)).trans (if_neg (not_not.2 rfl))

end Blocks

/-- The text of a format, for arguments that match it. -/
def render (format : List UInt8) (args : List Argument) : Option (List UInt8) :=
  (blocks format args).map List.flatten

end ArkoiOs
