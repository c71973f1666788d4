import Mathlib.Data.Fintype.Card
import ArkoiOs.Emm.Allocations
import ArkoiOs.Library.Chain
import ArkoiOs.Serial.Model

/-!
# The list of records

What a search of the list finds, and how an update of a record or a new record at
the end changes the list.
-/

namespace ArkoiOs

open Machine

variable {σ : Type}

namespace Serial

/-- The link of each record. -/
def link (s : Serial σ) (config : UInt32) : Option UInt32 := (s.records config).next

/-- The port of each record. -/
def portOf (s : Serial σ) (config : UInt32) : UInt16 := (s.records config).port

/-- The baud rate of each record. -/
def baudrateOf (s : Serial σ) (config : UInt32) : UInt32 := (s.records config).baudrate

/-- The records of the list, one per port, placed one behind the other in the early
heap; and the cache points to one of them. -/
structure Lists (s : Serial σ) (configs : List UInt32) : Prop where
  chain : Chain s.link s.serialPorts configs
  distinct : (configs.map s.portOf).Nodup
  placed : ∀ config ∈ configs, config.toNat + 12 ≤ s.emm.cursor.toNat
  apart : configs.Pairwise fun a b => a.toNat + 12 ≤ b.toNat
  cached : ∀ config, s.cachedLookupResult = some config → config ∈ configs

/-- The record of the port. -/
def find (s : Serial σ) (configs : List UInt32) (port : UInt16) : Option UInt32 :=
  configs.find? fun config => s.portOf config = port

/-- The slot where a search from a slot ends. -/
def slotOf (s : Serial σ) (port : UInt16) : SerialSlot → List UInt32 → SerialSlot
  | slot, [] => slot
  | slot, config :: configs =>
      if s.portOf config = port then slot else s.slotOf port (.next config) configs

end Serial

/-! ## Searching -/

section Search

variable {s : Serial σ} {configs : List UInt32} {port : UInt16} {slot : SerialSlot}

/-- The search ends at a slot that points to the record of the port. -/
theorem Serial.target_slotOf (chain : Chain s.link (s.target slot) configs) (port : UInt16) :
    s.target (s.slotOf port slot configs) = s.find configs port := by
  induction configs generalizing slot with
  | nil => exact chain.head_eq
  | cons config configs ih =>
      have first := chain.head_eq
      obtain ⟨_, same, rest⟩ := Chain.some_iff.1 (first ▸ chain)
      cases same
      rw [Serial.slotOf, Serial.find, List.find?_cons]
      by_cases here : s.portOf config = port
      · rw [if_pos here, decide_eq_true here]
        exact first
      · rw [if_neg here, decide_eq_false here]
        exact @ih (.next config) rest

/-- Without a record of the port it ends behind the last record. -/
theorem Serial.slotOf_of_none (missing : ∀ config ∈ configs, s.portOf config ≠ port)
    (slot : SerialSlot) : s.slotOf port slot configs = configs.getLast?.elim slot .next := by
  induction configs generalizing slot with
  | nil => rfl
  | cons config configs ih =>
      rw [Serial.slotOf, if_neg (missing config List.mem_cons_self),
        ih (fun c mem => missing c (List.mem_cons_of_mem _ mem)), List.getLast?_cons]
      cases configs.getLast? <;> rfl

theorem getSerialSlotFrom_eq {fuel : ℕ} (chain : Chain s.link (s.target slot) configs)
    (enough : configs.length < fuel) :
    getSerialSlotFrom port fuel slot s = .ok (s.slotOf port slot configs) s := by
  induction configs generalizing slot fuel with
  | nil =>
      obtain ⟨fuel, rfl⟩ := Nat.exists_eq_succ_of_ne_zero (Nat.ne_of_gt enough)
      have none : s.target slot = none := chain.head_eq
      rw [getSerialSlotFrom, bind_of_ok (get_run s), none]
      rfl
  | cons config configs ih =>
      obtain ⟨fuel, rfl⟩ := Nat.exists_eq_succ_of_ne_zero (Nat.ne_of_gt (Nat.zero_lt_of_lt enough))
      have first : s.target slot = some config := chain.head_eq
      obtain ⟨_, same, rest⟩ := Chain.some_iff.1 (first ▸ chain)
      cases same
      rw [getSerialSlotFrom, bind_of_ok (get_run s), first, Serial.slotOf]
      by_cases here : s.portOf config = port
      · rw [if_pos here]
        exact congrFun (if_pos here) s
      · rw [if_neg here]
        exact (congrFun (if_neg here) s).trans
          (@ih (.next config) _ rest (Nat.lt_of_succ_lt_succ enough))

/-- Records of different ports are at most as many as there are ports. -/
theorem Serial.Lists.length_le (lists : s.Lists configs) : configs.length ≤ 2 ^ 16 := by
  have numbers : ((configs.map s.portOf).map UInt16.toFin).Nodup :=
    lists.distinct.map fun _ _ => UInt16.toFin_inj.1
  have bound := numbers.length_le_card
  rw [List.length_map, List.length_map, Fintype.card_fin] at bound
  exact bound

theorem getSerialSlot_eq (lists : s.Lists configs) (port : UInt16) :
    getSerialSlot port s = .ok (s.slotOf port .ports configs) s :=
  getSerialSlotFrom_eq lists.chain (Nat.lt_succ_of_le lists.length_le)

theorem Serial.Lists.target_slot (lists : s.Lists configs) (port : UInt16) :
    s.target (s.slotOf port .ports configs) = s.find configs port :=
  Serial.target_slotOf lists.chain port

/-- A search finds the record of the port, if there is one. -/
theorem searchPort_eq (lists : s.Lists configs) (port : UInt16) :
    searchPort port s = .ok (s.find configs port) s := by
  rw [searchPort, bind_of_ok (getSerialSlot_eq lists port), bind_of_ok (get_run s),
    lists.target_slot]
  rfl

theorem Serial.portOf_of_find {config : UInt32} (found : s.find configs port = some config) :
    s.portOf config = port := by
  have test := List.find?_some found
  exact of_decide_eq_true test

theorem Serial.Lists.find_eq_some (lists : s.Lists configs) {config : UInt32} :
    s.find configs port = some config ↔ config ∈ configs ∧ s.portOf config = port := by
  constructor
  · intro found
    exact ⟨List.mem_of_find?_eq_some found, Serial.portOf_of_find found⟩
  · rintro ⟨mem, rfl⟩
    cases found : s.find configs (s.portOf config) with
    | none => exact absurd (List.find?_eq_none.1 found config mem) (by simp)
    | some other =>
        have listed := List.mem_of_find?_eq_some found
        rw [List.inj_on_of_nodup_map lists.distinct listed mem (Serial.portOf_of_find found)]

theorem Serial.find_eq_none :
    s.find configs port = none ↔ ∀ config ∈ configs, s.portOf config ≠ port := by
  rw [Serial.find, List.find?_eq_none]
  simp only [decide_eq_true_eq, ne_eq]

end Search

/-! ## Updating -/

section Update

variable {s : Serial σ} {configs : List UInt32} {port : UInt16} {config : UInt32}

@[simp] theorem Serial.link_setConfig (s : Serial σ) (config : UInt32) (record : SerialPort) :
    (s.setConfig config record).link = Function.update s.link config record.next :=
  Function.comp_update SerialPort.next s.records config record

@[simp] theorem Serial.portOf_setConfig (s : Serial σ) (config : UInt32) (record : SerialPort) :
    (s.setConfig config record).portOf = Function.update s.portOf config record.port :=
  Function.comp_update SerialPort.port s.records config record

@[simp] theorem Serial.baudrateOf_setConfig (s : Serial σ) (config : UInt32)
    (record : SerialPort) :
    (s.setConfig config record).baudrateOf =
      Function.update s.baudrateOf config record.baudrate :=
  Function.comp_update SerialPort.baudrate s.records config record

@[simp] theorem Serial.portOf_setTarget (s : Serial σ) (target : Option UInt32)
    (slot : SerialSlot) : (s.setTarget target slot).portOf = s.portOf := by
  cases slot with
  | ports => rfl
  | next record =>
      exact (Serial.portOf_setConfig ..).trans (Function.update_eq_self record s.portOf)

@[simp] theorem Serial.baudrateOf_setTarget (s : Serial σ) (target : Option UInt32)
    (slot : SerialSlot) : (s.setTarget target slot).baudrateOf = s.baudrateOf := by
  cases slot with
  | ports => rfl
  | next record =>
      exact (Serial.baudrateOf_setConfig ..).trans (Function.update_eq_self record s.baudrateOf)

/-- The state with the baud rate of a port that has a record. -/
def Serial.setBaudrate (s : Serial σ) (config : UInt32) (port : UInt16) (baudrate : UInt32) :
    Serial σ :=
  s.setConfig config { s.records config with port := port, baudrate := baudrate }

/-- The state with a new record behind the last one. -/
def Serial.addConfig (s : Serial σ) (configs : List UInt32) (port : UInt16) (baudrate : UInt32) :
    Serial σ :=
  let config := s.emm.cursor
  let cleared := Serial.setConfig { s with emm := { s.emm with cursor := config + 12 } } config
    { s.records config with next := none }
  (cleared.setTarget (some config) (configs.getLast?.elim .ports .next)).setBaudrate config port
    baudrate

/-- A port that has a record keeps it. -/
theorem upsertSerialConfig_of_some (lists : s.Lists configs)
    (found : s.find configs port = some config) (baudrate : UInt32) :
    upsertSerialConfig port baudrate s =
      .ok (some config) (s.setBaudrate config port baudrate) := by
  rw [upsertSerialConfig, bind_of_ok (getSerialSlot_eq lists port), bind_of_ok (get_run s),
    lists.target_slot, found]
  rfl

/-- A port without one gets a new record. -/
theorem upsertSerialConfig_of_none (lists : s.Lists configs) (missing : s.find configs port = none)
    (heap : 0 < s.emm.cursor) (room : s.emm.Fits 12) (baudrate : UInt32) :
    upsertSerialConfig port baudrate s =
      .ok (some s.emm.cursor) (s.addConfig configs port baudrate) := by
  have last := Serial.slotOf_of_none (Serial.find_eq_none.1 missing) .ports
  have address : SerialPort.orNull s.emm.cursor = some s.emm.cursor :=
    if_neg (Ne.symm (UInt32.ne_of_lt heap))
  have alloc : Serial.onEarlyHeap (emmAlloc sizeofSerialPort) s =
      .ok s.emm.cursor { s with emm := { s.emm with cursor := s.emm.cursor + 12 } } :=
    zoom_of_ok rfl (emmAlloc_of_fits room)
  rw [upsertSerialConfig, bind_of_ok (getSerialSlot_eq lists port), bind_of_ok (get_run s),
    lists.target_slot, missing]
  simp only
  rw [bind_of_ok alloc, address, last]
  rfl

theorem Serial.Lists.setBaudrate (lists : s.Lists configs) (same : s.portOf config = port)
    (baudrate : UInt32) : (s.setBaudrate config port baudrate).Lists configs := by
  have link : (s.setBaudrate config port baudrate).link = s.link :=
    (Serial.link_setConfig ..).trans (Function.update_eq_self config s.link)
  have ports : (s.setBaudrate config port baudrate).portOf = s.portOf := by
    subst same
    exact (Serial.portOf_setConfig ..).trans (Function.update_eq_self config s.portOf)
  refine ⟨?_, ?_, lists.placed, lists.apart, lists.cached⟩
  · rw [link]
    exact lists.chain
  · rw [ports]
    exact lists.distinct

theorem Serial.portOf_setBaudrate (s : Serial σ) (config : UInt32) (port : UInt16)
    (baudrate : UInt32) :
    (s.setBaudrate config port baudrate).portOf = Function.update s.portOf config port :=
  Serial.portOf_setConfig ..

theorem Serial.baudrateOf_setBaudrate (s : Serial σ) (config : UInt32) (port : UInt16)
    (baudrate : UInt32) :
    (s.setBaudrate config port baudrate).baudrateOf =
      Function.update s.baudrateOf config baudrate :=
  Serial.baudrateOf_setConfig ..

theorem Serial.link_setBaudrate (s : Serial σ) (config : UInt32) (port : UInt16)
    (baudrate : UInt32) : (s.setBaudrate config port baudrate).link = s.link :=
  (Serial.link_setConfig ..).trans (Function.update_eq_self config s.link)

theorem Serial.portOf_addConfig (s : Serial σ) (configs : List UInt32) (port : UInt16)
    (baudrate : UInt32) :
    (s.addConfig configs port baudrate).portOf = Function.update s.portOf s.emm.cursor port := by
  rw [Serial.addConfig, Serial.portOf_setBaudrate, Serial.portOf_setTarget,
    Serial.portOf_setConfig]
  exact Function.update_idem ..

theorem Serial.baudrateOf_addConfig (s : Serial σ) (configs : List UInt32) (port : UInt16)
    (baudrate : UInt32) :
    (s.addConfig configs port baudrate).baudrateOf =
      Function.update s.baudrateOf s.emm.cursor baudrate := by
  rw [Serial.addConfig, Serial.baudrateOf_setBaudrate, Serial.baudrateOf_setTarget,
    Serial.baudrateOf_setConfig]
  exact Function.update_idem ..

/-- Only the list and the cursor of the heap change besides records. -/
theorem Serial.addConfig_rest (s : Serial σ) (configs : List UInt32) (port : UInt16)
    (baudrate : UInt32) :
    (s.addConfig configs port baudrate).emm = { s.emm with cursor := s.emm.cursor + 12 } ∧
      (s.addConfig configs port baudrate).device = s.device ∧
      (s.addConfig configs port baudrate).cachedLookupResult = s.cachedLookupResult := by
  unfold Serial.addConfig
  cases configs.getLast? <;> exact ⟨rfl, rfl, rfl⟩

/-- The new record is behind the records of the list. -/
theorem Serial.Lists.cursor_notMem (lists : s.Lists configs) : s.emm.cursor ∉ configs := by
  intro mem
  have below := lists.placed _ mem
  omega

theorem Serial.Lists.chain_addConfig (lists : s.Lists configs) (port : UInt16)
    (baudrate : UInt32) :
    Chain (s.addConfig configs port baudrate).link
      (s.addConfig configs port baudrate).serialPorts (configs ++ [s.emm.cursor]) := by
  have fresh := lists.cursor_notMem
  have chain := lists.chain
  rw [Serial.addConfig, Serial.link_setBaudrate]
  rcases List.eq_nil_or_concat' configs with rfl | ⟨front, last, rfl⟩
  · change Chain (Serial.setConfig _ s.emm.cursor _).link (some s.emm.cursor) [s.emm.cursor]
    rw [Serial.link_setConfig]
    apply Chain.cons
    rw [Function.update_self]
    exact .nil
  · rw [List.getLast?_concat]
    change Chain (Serial.setConfig (Serial.setConfig _ _ _) last _).link s.serialPorts _
    rw [Serial.link_setConfig, Serial.link_setConfig]
    exact chain.concat fresh

/-- The records of the list keep their ports. -/
theorem Serial.Lists.portOf_addConfig_of_mem (lists : s.Lists configs) (port : UInt16)
    (baudrate : UInt32) : ∀ config ∈ configs,
      (s.addConfig configs port baudrate).portOf config = s.portOf config := by
  intro config mem
  have other : config ≠ s.emm.cursor := ne_of_mem_of_not_mem mem lists.cursor_notMem
  rw [Serial.portOf_addConfig, Function.update_of_ne other]

theorem Serial.Lists.ports_addConfig (lists : s.Lists configs) (port : UInt16)
    (baudrate : UInt32) :
    (configs ++ [s.emm.cursor]).map (s.addConfig configs port baudrate).portOf =
      configs.map s.portOf ++ [port] := by
  rw [List.map_append, List.map_congr_left (lists.portOf_addConfig_of_mem port baudrate),
    List.map_singleton, Serial.portOf_addConfig, Function.update_self]

/-- The list with a new record. -/
theorem Serial.Lists.addConfig (lists : s.Lists configs) (missing : s.find configs port = none)
    (room : s.emm.Fits 12) (baudrate : UInt32) :
    (s.addConfig configs port baudrate).Lists (configs ++ [s.emm.cursor]) := by
  obtain ⟨emm, -, cached⟩ := Serial.addConfig_rest s configs port baudrate
  have moved := toNat_cursor_add room
  refine ⟨lists.chain_addConfig port baudrate, ?_, ?_, ?_, ?_⟩
  · rw [lists.ports_addConfig]
    refine List.nodup_append.2 ⟨lists.distinct, List.nodup_singleton port, ?_⟩
    intro a before b last
    obtain ⟨config, mem, rfl⟩ := List.mem_map.1 before
    rw [List.mem_singleton.1 last]
    exact Serial.find_eq_none.1 missing config mem
  · intro config mem
    rw [emm]
    simp only [moved]
    rcases List.mem_append.1 mem with before | last
    · exact (lists.placed config before).trans (Nat.le_add_right _ _)
    · rw [List.mem_singleton.1 last]
      exact Nat.le_refl _
  · refine List.pairwise_append.2 ⟨lists.apart, List.pairwise_singleton _ _, ?_⟩
    intro a before b last
    rw [List.mem_singleton.1 last]
    exact lists.placed a before
  · intro config hit
    rw [cached] at hit
    exact List.mem_append_left _ (lists.cached config hit)

end Update

end ArkoiOs
