import ArkoiOs.Idt

/-!
# The interrupt controllers

`arch/x86/idt/pic.c` on a pair of 8259A chips.  A chip takes a command word and the
initialization words that it announces, keeps a mask of its lines and a set of lines
in service; the end of an interrupt is told without its number and ends the line of
the highest priority.  Commands that the kernel never gives are ignored.
-/

namespace ArkoiOs

/-! ## The chips -/

/-- What a chip takes the next byte on its data port for. -/
inductive PicStage
  | mask | icw2 | icw3 | icw4
  deriving DecidableEq, Repr

/-- A chip. -/
structure Pic where
  stage : PicStage
  single : Bool
  expectsIcw4 : Bool
  offset : UInt8
  cascade : UInt8
  mode : UInt8
  mask : UInt8
  inService : UInt8
  deriving DecidableEq, Repr

def icw1Icw4 : UInt8 := 0x01
def icw1Single : UInt8 := 0x02
def icw1Init : UInt8 := 0x10
def icw4_8086 : UInt8 := 0x01
def cascadeIrq : UInt8 := 2

namespace Pic

/-- A byte on the command port. -/
def writeCommand (pic : Pic) (data : UInt8) : Pic :=
  if data &&& icw1Init ≠ 0 then
    { pic with
      stage := .icw2
      single := data &&& icw1Single != 0
      expectsIcw4 := data &&& icw1Icw4 != 0
      mode := 0
      mask := 0
      inService := 0 }
  else if data = picEoi then { pic with inService := pic.inService &&& (pic.inService - 1) }
  else pic

/-- Where the initialization goes on. -/
def stageBehindIcw3 (pic : Pic) : PicStage := if pic.expectsIcw4 then .icw4 else .mask

/-- A byte on the data port. -/
def writeData (pic : Pic) (data : UInt8) : Pic :=
  match pic.stage with
  | .mask => { pic with mask := data }
  | .icw2 =>
      { pic with
        stage := if pic.single then pic.stageBehindIcw3 else .icw3
        offset := data &&& 0xF8 }
  | .icw3 => { pic with stage := pic.stageBehindIcw3, cascade := data }
  | .icw4 => { pic with stage := .mask, mode := data }

theorem writeData_of_mask {pic : Pic} (ready : pic.stage = .mask) (data : UInt8) :
    pic.writeData data = { pic with mask := data } := by
  rcases pic with ⟨stage⟩
  subst ready
  rfl

/-- A line is taken to the processor. -/
def accept (pic : Pic) (line : ℕ) : Pic :=
  { pic with inService := pic.inService ||| .ofNat (2 ^ line) }

/-- A line waits for a line in service of its own or a higher priority. -/
def blocks (pic : Pic) (line : ℕ) : Bool := pic.inService.toNat % 2 ^ (line + 1) != 0

theorem blocks_of_idle {pic : Pic} (idle : pic.inService = 0) (line : ℕ) :
    pic.blocks line = false := by
  unfold blocks
  rw [idle, UInt8.toNat_zero, Nat.zero_mod]
  rfl

/-- The end of an interrupt ends the only line in service. -/
theorem eoi_accept {pic : Pic} (idle : pic.inService = 0) {line : ℕ} (inside : line < 8) :
    (pic.accept line).writeCommand picEoi = pic := by
  have ended : ∀ line : Fin 8, ((0 : UInt8) ||| .ofNat (2 ^ (line : ℕ))) &&&
      (((0 : UInt8) ||| .ofNat (2 ^ (line : ℕ))) - 1) = 0 := by decide
  rcases pic with ⟨stage, single, expectsIcw4, offset, cascade, mode, mask, inService⟩
  change inService = 0 at idle
  subst idle
  exact congrArg (Pic.mk stage single expectsIcw4 offset cascade mode mask) (ended ⟨line, inside⟩)

end Pic

/-- The two chips; the second one is at line 2 of the first. -/
structure Pics where
  master : Pic
  slave : Pic
  deriving DecidableEq, Repr

def pic1Data : UInt16 := 0x21
def pic2Data : UInt16 := 0xA1

namespace Pics

/-- A byte on a port; other ports belong to other devices. -/
def write (pics : Pics) (port : UInt16) (data : UInt8) : Pics :=
  if port = pic1Command then { pics with master := pics.master.writeCommand data }
  else if port = pic1Data then { pics with master := pics.master.writeData data }
  else if port = pic2Command then { pics with slave := pics.slave.writeCommand data }
  else if port = pic2Data then { pics with slave := pics.slave.writeData data }
  else pics

/-- The bytes written to ports, in their order. -/
def writes (pics : Pics) (log : List (UInt16 × UInt8)) : Pics :=
  log.foldl (fun pics entry => pics.write entry.1 entry.2) pics

/-- A line is masked. -/
def maskOf (pics : Pics) (line : ℕ) : Bool :=
  if line < 8 then pics.master.mask.toNat.testBit line
  else pics.slave.mask.toNat.testBit (line - 8)

/-- A line is taken to the processor. -/
def accept (pics : Pics) (line : ℕ) : Pics :=
  if line < 8 then { pics with master := pics.master.accept line }
  else ⟨pics.master.accept 2, pics.slave.accept (line - 8)⟩

/-- The chips take a line to the processor if it asks for it. -/
def offers (pics : Pics) (line : ℕ) : Bool :=
  !pics.maskOf line &&
    if line < 8 then !pics.master.blocks line
    else !pics.maskOf 2 && !pics.master.blocks 2 && !pics.slave.blocks (line - 8)

/-- The vector the processor is given for a line. -/
def vectorOf (pics : Pics) (line : ℕ) : ℕ :=
  if line < 8 then pics.master.offset.toNat + line else pics.slave.offset.toNat + (line - 8)

end Pics

/-! ## The driver -/

/-- `outb`. -/
def Pics.outb (port : UInt16) (data : UInt8) : KernelM Pics Unit :=
  modify fun pics => pics.write port data

/-- `inb` from a data port. -/
def Pics.inb (port : UInt16) : KernelM Pics UInt8 := do
  let pics ← get
  pure (if port = pic1Data then pics.master.mask else pics.slave.mask)

/-- `pic_remap`. -/
def picRemap (offset1 offset2 : UInt8) : KernelM Pics Unit := do
  Pics.outb pic1Command (icw1Init ||| icw1Icw4)
  Pics.outb pic2Command (icw1Init ||| icw1Icw4)
  Pics.outb pic1Data offset1
  Pics.outb pic2Data offset2
  Pics.outb pic1Data (1 <<< cascadeIrq)
  Pics.outb pic2Data 2
  Pics.outb pic1Data icw4_8086
  Pics.outb pic2Data icw4_8086
  Pics.outb pic1Data 0
  Pics.outb pic2Data 0

/-- The port of a line and the line on its chip. -/
def picLine (irq : UInt8) : UInt16 × UInt8 :=
  if irq < 8 then (pic1Data, irq) else (pic2Data, irq - 8)

/-- `pic_set_mask`. -/
def picSetMask (irq : UInt8) : KernelM Pics UInt8 := do
  let (port, irq) := picLine irq
  let mask ← Pics.inb port
  let value := mask ||| .ofNat (2 ^ irq.toNat)
  Pics.outb port value
  pure value

/-- `pic_clear_mask`. -/
def picClearMask (irq : UInt8) : KernelM Pics UInt8 := do
  let (port, irq) := picLine irq
  let mask ← Pics.inb port
  let value := mask &&& ~~~(.ofNat (2 ^ irq.toNat))
  Pics.outb port value
  pure value

/-- `pic_disable`. -/
def picDisable : KernelM Pics Unit := do
  Pics.outb pic1Data 0xFF
  Pics.outb pic2Data 0xFF

/-! ## Masks -/

section Masks

variable {pics pics' : Pics} {mask : UInt8} {k line : ℕ}

/-- Setting one bit of a mask. -/
theorem setBit_testBit (mask : UInt8) (hk : k < 8) (j : ℕ) :
    (mask ||| .ofNat (2 ^ k)).toNat.testBit j = (mask.toNat.testBit j || decide (k = j)) := by
  have power : (UInt8.ofNat (2 ^ k)).toNat = 2 ^ k :=
    UInt8.toNat_ofNat_of_lt' (Nat.pow_lt_pow_right (by omega) hk)
  rw [UInt8.toNat_or, Nat.testBit_or, power, Nat.testBit_two_pow]

/-- Clearing one bit of a mask. -/
theorem clearBit_testBit (mask : UInt8) (hk : k < 8) {j : ℕ} (hj : j < 8) :
    (mask &&& ~~~(.ofNat (2 ^ k))).toNat.testBit j =
      (mask.toNat.testBit j && !decide (k = j)) := by
  have power : 2 ^ k < 2 ^ 8 := Nat.pow_lt_pow_right (by omega) hk
  have inverse : (~~~(UInt8.ofNat (2 ^ k))).toNat = 2 ^ 8 - (2 ^ k + 1) := by
    rw [UInt8.toNat_not, UInt8.toNat_ofNat_of_lt' power, Nat.sub_sub, Nat.add_comm]
    rfl
  rw [UInt8.toNat_and, Nat.testBit_and, inverse, Nat.testBit_two_pow_sub_succ power,
    Nat.testBit_two_pow, decide_eq_true hj, Bool.true_and]

/-- Both chips are set up. -/
structure Pics.Ready (pics : Pics) : Prop where
  master : pics.master.stage = .mask
  slave : pics.slave.stage = .mask

/-- Everything but the masks is the same. -/
structure Pics.SameButMasks (pics pics' : Pics) : Prop where
  master : pics'.master = { pics.master with mask := pics'.master.mask }
  slave : pics'.slave = { pics.slave with mask := pics'.slave.mask }

/-- A call that changes masks. -/
inductive PicCall
  | setMask (irq : UInt8)
  | clearMask (irq : UInt8)
  | disable
  deriving DecidableEq, Repr

namespace PicCall

/-- Make the call. -/
def run : PicCall → KernelM Pics Unit
  | setMask irq => do
      let _ ← picSetMask irq
      pure ()
  | clearMask irq => do
      let _ ← picClearMask irq
      pure ()
  | disable => picDisable

/-- The call names a line. -/
def Valid : PicCall → Prop
  | setMask irq | clearMask irq => irq.toNat < 16
  | disable => True

/-- The call is about the line. -/
def about (line : ℕ) : PicCall → Bool
  | setMask irq | clearMask irq => irq.toNat = line
  | disable => true

/-- Whether the call masks what it is about. -/
def masks : PicCall → Bool
  | setMask _ | disable => true
  | clearMask _ => false

end PicCall

/-- Whether a line is masked after calls that begin with no line masked. -/
def latestMask (calls : List PicCall) (line : ℕ) : Bool :=
  match calls.reverse.find? (PicCall.about line) with
  | some call => call.masks
  | none => false

theorem latestMask_concat (calls : List PicCall) (call : PicCall) (line : ℕ) :
    latestMask (calls ++ [call]) line =
      if call.about line then call.masks else latestMask calls line := by
  unfold latestMask
  rw [List.reverse_append, List.reverse_singleton, List.singleton_append, List.find?_cons]
  cases call.about line <;> rfl

/-- Change the mask of the chip a line is on. -/
def Pics.editMask (pics : Pics) (irq : UInt8) (f : UInt8 → UInt8) : Pics :=
  if irq.toNat < 8 then { pics with master := { pics.master with mask := f pics.master.mask } }
  else { pics with slave := { pics.slave with mask := f pics.slave.mask } }

theorem Pics.editMask_same (pics : Pics) (irq : UInt8) (f : UInt8 → UInt8) :
    pics.SameButMasks (pics.editMask irq f) := by
  unfold editMask
  split
  · exact ⟨rfl, rfl⟩
  · exact ⟨rfl, rfl⟩

/-- `pic_set_mask` and `pic_clear_mask` read, change and write one mask. -/
theorem editMask_ok (ready : pics.Ready) (irq : UInt8) (f : UInt8 → UInt8) :
    ∃ value, (do
      let mask ← Pics.inb (picLine irq).1
      Pics.outb (picLine irq).1 (f mask)
      pure (f mask)) pics = .ok value (pics.editMask irq f) := by
  have first : irq < 8 ↔ irq.toNat < 8 := UInt8.lt_iff_toNat_lt
  rcases ready with ⟨master, slave⟩
  unfold picLine Pics.editMask
  by_cases here : irq.toNat < 8
  · rw [if_pos (first.2 here), if_pos here]
    have written := Pic.writeData_of_mask master (f pics.master.mask)
    refine ⟨f pics.master.mask, ?_⟩
    exact congrArg (fun pic => EStateM.Result.ok (f pics.master.mask)
      ({ pics with master := pic } : Pics)) written
  · rw [if_neg (mt first.1 here), if_neg here]
    have written := Pic.writeData_of_mask slave (f pics.slave.mask)
    refine ⟨f pics.slave.mask, ?_⟩
    exact congrArg (fun pic => EStateM.Result.ok (f pics.slave.mask)
      ({ pics with slave := pic } : Pics)) written

/-- The line on its chip. -/
theorem picLine_toNat (irq : UInt8) :
    (picLine irq).2.toNat = if irq.toNat < 8 then irq.toNat else irq.toNat - 8 := by
  have first : irq < 8 ↔ irq.toNat < 8 := UInt8.lt_iff_toNat_lt
  unfold picLine
  by_cases here : irq.toNat < 8
  · rw [if_pos (first.2 here), if_pos here]
  · rw [if_neg (mt first.1 here), if_neg here]
    exact UInt8.toNat_sub_of_le _ _ (UInt8.le_iff_toNat_le.2 (Nat.not_lt.1 here))

/-- A change of one bit is seen at its line only. -/
theorem maskOf_editMask {irq : UInt8} {f : UInt8 → UInt8} {value : Bool}
    (valid : irq.toNat < 16) (inside : line < 16)
    (bit : ∀ mask : UInt8, ∀ j < 8, (f mask).toNat.testBit j =
      if (picLine irq).2.toNat = j then value else mask.toNat.testBit j) :
    (pics.editMask irq f).maskOf line = if irq.toNat = line then value else pics.maskOf line := by
  rw [picLine_toNat] at bit
  unfold Pics.editMask Pics.maskOf
  by_cases chip : irq.toNat < 8
  · simp only [if_pos chip] at bit ⊢
    by_cases own : line < 8
    · rw [if_pos own, if_pos own, bit _ _ own]
    · rw [if_neg own, if_neg own, if_neg (by omega)]
  · simp only [if_neg chip] at bit ⊢
    by_cases other : line < 8
    · rw [if_pos other, if_pos other, if_neg (by omega)]
    · rw [if_neg other, if_neg other, bit _ _ (by omega)]
      have same : irq.toNat - 8 = line - 8 ↔ irq.toNat = line := by omega
      simp only [same]

/-- `pic_set_mask` sets the bit of the line. -/
theorem setMask_run (ready : pics.Ready) (irq : UInt8) :
    (PicCall.setMask irq).run pics =
      .ok () (pics.editMask irq fun mask => mask ||| .ofNat (2 ^ (picLine irq).2.toNat)) := by
  obtain ⟨value, edited⟩ :=
    editMask_ok ready irq fun mask => mask ||| .ofNat (2 ^ (picLine irq).2.toNat)
  exact Machine.bind_of_ok edited

/-- `pic_clear_mask` clears the bit of the line. -/
theorem clearMask_run (ready : pics.Ready) (irq : UInt8) :
    (PicCall.clearMask irq).run pics =
      .ok () (pics.editMask irq fun mask => mask &&& ~~~(.ofNat (2 ^ (picLine irq).2.toNat))) := by
  obtain ⟨value, edited⟩ :=
    editMask_ok ready irq fun mask => mask &&& ~~~(.ofNat (2 ^ (picLine irq).2.toNat))
  exact Machine.bind_of_ok edited

/-- `pic_disable` masks every line. -/
theorem disable_run (ready : pics.Ready) :
    PicCall.disable.run pics =
      .ok () ⟨{ pics.master with mask := 0xFF }, { pics.slave with mask := 0xFF }⟩ := by
  have master := Pic.writeData_of_mask ready.master 0xFF
  have slave := Pic.writeData_of_mask ready.slave 0xFF
  calc PicCall.disable.run pics
    _ = .ok () ⟨pics.master.writeData 0xFF, pics.slave.writeData 0xFF⟩ := rfl
    _ = _ := by rw [master, slave]

theorem maskOf_full (master slave : Pic) (line : ℕ) (inside : line < 16) :
    Pics.maskOf ⟨{ master with mask := 0xFF }, { slave with mask := 0xFF }⟩ line = true := by
  have full : ∀ j < 8, (0xFF : UInt8).toNat.testBit j = true := by decide
  unfold Pics.maskOf
  by_cases own : line < 8
  · rw [if_pos own]
    exact full _ own
  · rw [if_neg own]
    exact full _ (by omega)

/-- A call masks or unmasks what it is about, and nothing else changes. -/
theorem PicCall.run_ok (ready : pics.Ready) {call : PicCall} (valid : call.Valid) :
    ∃ pics', call.run pics = .ok () pics' ∧ pics.SameButMasks pics' ∧
      ∀ line < 16, pics'.maskOf line =
        if call.about line then call.masks else pics.maskOf line := by
  have onChip : ∀ irq : UInt8, irq.toNat < 16 → (picLine irq).2.toNat < 8 := by
    intro irq valid
    rw [picLine_toNat]
    split
    · assumption
    · omega
  cases call with
  | setMask irq =>
      refine ⟨_, setMask_run ready irq, pics.editMask_same irq _, fun line inside => ?_⟩
      have bit : ∀ mask : UInt8, ∀ j < 8,
          (mask ||| .ofNat (2 ^ (picLine irq).2.toNat)).toNat.testBit j =
            if (picLine irq).2.toNat = j then true else mask.toNat.testBit j := by
        intro mask j _
        rw [setBit_testBit mask (onChip irq valid)]
        by_cases same : (picLine irq).2.toNat = j <;> simp [same]
      rw [maskOf_editMask valid inside bit]
      simp [PicCall.about, PicCall.masks]
  | clearMask irq =>
      refine ⟨_, clearMask_run ready irq, pics.editMask_same irq _, fun line inside => ?_⟩
      have bit : ∀ mask : UInt8, ∀ j < 8,
          (mask &&& ~~~(.ofNat (2 ^ (picLine irq).2.toNat))).toNat.testBit j =
            if (picLine irq).2.toNat = j then false else mask.toNat.testBit j := by
        intro mask j small
        rw [clearBit_testBit mask (onChip irq valid) small]
        by_cases same : (picLine irq).2.toNat = j <;> simp [same]
      rw [maskOf_editMask valid inside bit]
      simp [PicCall.about, PicCall.masks]
  | disable =>
      refine ⟨_, disable_run ready, ⟨rfl, rfl⟩, fun line inside => ?_⟩
      rw [maskOf_full _ _ line inside]
      rfl

end Masks

end ArkoiOs
