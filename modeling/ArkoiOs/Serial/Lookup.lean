import Mathlib.Data.Finset.Card
import ArkoiOs.Serial.Records

/-!
# Looking up serial ports

Calls of `serial_init_port` and `serial_get_port` in any order, on any hardware.
The cache never answers differently from a search of the list: a record stays in
the list, keeps its port, and is the only one of its port.
-/

namespace ArkoiOs

open Machine

variable {σ : Type}

/-! ## Calls -/

/-- A call of the driver. -/
inductive SerialCall
  | initPort (port : UInt16) (baudrate : UInt32) (dataBits : SerialDataBits)
      (parity : SerialParity) (stopBits : SerialStopBits)
  | getPort (port : UInt16)
  deriving DecidableEq, Repr

/-- The set-up and the test of a port. -/
def loopBackTest (io : IoDevice σ) (port : UInt16) (baudrate : UInt32)
    (dataBits : SerialDataBits) (parity : SerialParity) (stopBits : SerialStopBits) :
    StateM σ Bool := do
  configurePort io port baudrate dataBits parity stopBits
  testPort io port

namespace SerialCall

/-- Make the call. -/
def run (io : IoDevice σ) : SerialCall → KernelM (Serial σ) (Option UInt32)
  | initPort port baudrate dataBits parity stopBits =>
      serialInitPort io port baudrate dataBits parity stopBits
  | getPort port => serialGetPort port

def port : SerialCall → UInt16
  | initPort port .. | getPort port => port

/-- An initialisation has a baud rate. -/
def NonzeroBaudrate : SerialCall → Prop
  | initPort _ baudrate .. => baudrate ≠ 0
  | getPort _ => True

instance : (call : SerialCall) → Decidable call.NonzeroBaudrate
  | initPort _ baudrate .. => inferInstanceAs (Decidable (baudrate ≠ 0))
  | getPort _ => inferInstanceAs (Decidable True)

/-- The port that passes its test in the call, if one does, and what the call leaves
the hardware in. -/
def test (io : IoDevice σ) : SerialCall → σ → Option UInt16 × σ
  | initPort port baudrate dataBits parity stopBits, device =>
      let tested := (loopBackTest io port baudrate dataBits parity stopBits).run device
      (if tested.1 then some port else none, tested.2)
  | getPort _, device => (none, device)

/-- The baud rate a call with this result has given the port. -/
def initialised (port : UInt16) : SerialCall × Option UInt32 → Option UInt32
  | (initPort port' baudrate .., some _) => if port' = port then some baudrate else none
  | _ => none

end SerialCall

/-- Make the calls in their order; each is returned with its result. -/
def runSerialCalls (io : IoDevice σ) (calls : List SerialCall) :
    KernelM (Serial σ) (List (SerialCall × Option UInt32)) :=
  recordEach (SerialCall.run io) calls

/-- The ports that pass a test in the calls. -/
def passingPorts (io : IoDevice σ) : List SerialCall → σ → List UInt16
  | [], _ => []
  | call :: calls, device =>
      (call.test io device).1.toList ++ passingPorts io calls (call.test io device).2

/-- The baud rate of the latest successful initialisation of the port. -/
def latestBaudrate (history : List (SerialCall × Option UInt32)) (port : UInt16) :
    Option UInt32 :=
  history.reverse.findSome? (SerialCall.initialised port)

/-- What the lookup promises behind calls: the list has one record per port, and the
lookup of a port returns what a search of the list does, which is null if and only if
no initialisation of the port has succeeded, and otherwise the record every earlier
call for the port has returned, with the latest baud rate. -/
structure LookupAgrees (history : List (SerialCall × Option UInt32)) (s : Serial σ) : Prop where
  onePerPort : ∃ configs, Chain s.link s.serialPorts configs ∧ (configs.map s.portOf).Nodup
  lookup : ∀ port, ∃ result s', serialGetPort port s = .ok result s' ∧
    searchPort port s = .ok result s ∧
    (result = none ↔ ∀ entry ∈ history, SerialCall.initialised port entry = none) ∧
    ∀ config, result = some config →
      (s'.records config).port = port ∧
      latestBaudrate history port = some (s'.records config).baudrate ∧
      ∀ call earlier, (call, some earlier) ∈ history → call.port = port → earlier = config

/-! ## What each call keeps -/

/-- The list has the records the calls have returned, with their latest baud rates. -/
structure Serves (history : List (SerialCall × Option UInt32)) (s : Serial σ)
    (configs : List UInt32) : Prop extends s.Lists configs where
  latest : ∀ config ∈ configs,
    latestBaudrate history (s.portOf config) = some (s.baudrateOf config)
  returned : ∀ call config, (call, some config) ∈ history →
    config ∈ configs ∧ s.portOf config = call.port

/-- The early heap has room for a record of each port that passes a test in the
calls and has none yet. -/
structure HasRoom (io : IoDevice σ) (calls : List SerialCall) (s : Serial σ)
    (configs : List UInt32) : Prop where
  heap : 0 < s.emm.cursor
  room : s.emm.cursor.toNat +
      12 * ((passingPorts io calls s.device).toFinset \ (configs.map s.portOf).toFinset).card ≤
    s.emm.end_.toNat

section Steps

variable {io : IoDevice σ} {s : Serial σ} {configs : List UInt32} {port : UInt16}
  {history : List (SerialCall × Option UInt32)} {call : SerialCall} {calls : List SerialCall}

theorem latestBaudrate_concat (history : List (SerialCall × Option UInt32))
    (entry : SerialCall × Option UInt32) (port : UInt16) :
    latestBaudrate (history ++ [entry]) port =
      (SerialCall.initialised port entry).or (latestBaudrate history port) := by
  rw [latestBaudrate, List.reverse_append, List.reverse_singleton, List.singleton_append,
    List.findSome?_cons]
  cases SerialCall.initialised port entry <;> rfl

theorem latestBaudrate_eq_none :
    latestBaudrate history port = none ↔
      ∀ entry ∈ history, SerialCall.initialised port entry = none := by
  rw [latestBaudrate, List.findSome?_eq_none_iff]
  simp only [List.mem_reverse]

/-- A call that returns no record, or one of another port, does not initialise the port. -/
theorem SerialCall.initialised_of_ne {entry : SerialCall × Option UInt32}
    (other : ∀ config, entry.2 = some config → entry.1.port ≠ port) :
    SerialCall.initialised port entry = none := by
  obtain ⟨call, result⟩ := entry
  cases result with
  | none => cases call <;> rfl
  | some config =>
      cases call with
      | initPort port' => exact if_neg (other config rfl)
      | getPort => rfl

/-- A call that does not initialise a port keeps the latest baud rates. -/
theorem latestBaudrate_of_none {entry : SerialCall × Option UInt32}
    (none : SerialCall.initialised port entry = none) :
    latestBaudrate (history ++ [entry]) port = latestBaudrate history port := by
  rw [latestBaudrate_concat, none]
  rfl

/-- `serial_get_port` finds the record of the port and caches it. -/
theorem serialGetPort_eq (lists : s.Lists configs) (port : UInt16) :
    serialGetPort port s = .ok (s.find configs port)
      { s with cachedLookupResult := (s.find configs port).or s.cachedLookupResult } := by
  rw [serialGetPort, bind_of_ok (get_run s)]
  cases hit : s.cachedLookupResult.filter fun cached => (s.records cached).port = port with
  | some cached =>
      obtain ⟨cache, same⟩ := Option.filter_eq_some_iff.1 hit
      have found : s.find configs port = some cached :=
        lists.find_eq_some.2 ⟨lists.cached cached cache, of_decide_eq_true same⟩
      have kept : { s with cachedLookupResult := some cached } = s := by rw [← cache]
      rw [found, Option.some_or, kept]
      rfl
  | none =>
      simp only
      rw [bind_of_ok (searchPort_eq lists port)]
      cases s.find configs port <;> rfl

/-- The cache may point to any record of the list. -/
theorem Serial.Lists.cache (lists : s.Lists configs) (port : UInt16) :
    Serial.Lists { s with cachedLookupResult := (s.find configs port).or s.cachedLookupResult }
      configs := by
  refine ⟨lists.chain, lists.distinct, lists.placed, lists.apart, ?_⟩
  intro config hit
  rcases Option.or_eq_some_iff.1 hit with found | ⟨-, cached⟩
  · exact (lists.find_eq_some.1 found).1
  · exact lists.cached config cached

theorem Serves.getPort (serves : Serves history s configs) (port : UInt16) :
    Serves (history ++ [(.getPort port, s.find configs port)])
      { s with cachedLookupResult := (s.find configs port).or s.cachedLookupResult }
      configs where
  toLists := serves.toLists.cache port
  latest config mem := (latestBaudrate_of_none rfl).trans (serves.latest config mem)
  returned call config mem := by
    rcases List.mem_append.1 mem with earlier | last
    · exact serves.returned call config earlier
    · obtain ⟨rfl, found⟩ := Prod.mk.inj (List.mem_singleton.1 last)
      exact serves.toLists.find_eq_some.1 found.symm

/-- Nothing in the list depends on the hardware. -/
theorem Serves.setDevice (serves : Serves history s configs) (device : σ) :
    Serves history { s with device := device } configs :=
  ⟨⟨serves.chain, serves.distinct, serves.placed, serves.apart, serves.cached⟩, serves.latest,
    serves.returned⟩

/-- A call that returns null keeps the records. -/
theorem Serves.null (serves : Serves history s configs) (call : SerialCall) :
    Serves (history ++ [(call, none)]) s configs where
  toLists := serves.toLists
  latest config mem := by
    have none : SerialCall.initialised (s.portOf config) (call, none) = none :=
      SerialCall.initialised_of_ne nofun
    exact (latestBaudrate_of_none none).trans (serves.latest config mem)
  returned call config mem := by
    rcases List.mem_append.1 mem with earlier | last
    · exact serves.returned call config earlier
    · cases List.mem_singleton.1 last

section InitPort

variable {baudrate : UInt32} {dataBits : SerialDataBits} {parity : SerialParity}
  {stopBits : SerialStopBits} {config : UInt32}

/-- An initialisation of a port that has a record. -/
theorem Serves.setBaudrate (serves : Serves history s configs)
    (found : s.find configs port = some config) :
    Serves (history ++ [(.initPort port baudrate dataBits parity stopBits, some config)])
      (s.setBaudrate config port baudrate) configs := by
  obtain ⟨listed, same⟩ := serves.toLists.find_eq_some.1 found
  have ports : (s.setBaudrate config port baudrate).portOf = s.portOf := by
    rw [Serial.portOf_setBaudrate, ← same]
    exact Function.update_eq_self config s.portOf
  refine ⟨serves.toLists.setBaudrate same baudrate, ?_, ?_⟩
  · intro other mem
    rw [ports, latestBaudrate_concat, Serial.baudrateOf_setBaudrate, SerialCall.initialised]
    by_cases this : other = config
    · subst this
      rw [if_pos same.symm, Function.update_self]
      rfl
    · have apart : port ≠ s.portOf other := fun port' => this
        (List.inj_on_of_nodup_map serves.distinct mem listed (port'.symm.trans same.symm))
      rw [if_neg apart, Function.update_of_ne this]
      exact serves.latest other mem
  · intro call other mem
    rw [ports]
    rcases List.mem_append.1 mem with earlier | last
    · exact serves.returned call other earlier
    · obtain ⟨rfl, this⟩ := Prod.mk.inj (List.mem_singleton.1 last)
      cases this
      exact ⟨listed, same⟩

/-- An initialisation of a port that has none. -/
theorem Serves.addConfig (serves : Serves history s configs)
    (missing : s.find configs port = none) (room : s.emm.Fits 12) :
    Serves (history ++ [(.initPort port baudrate dataBits parity stopBits, some s.emm.cursor)])
      (s.addConfig configs port baudrate) (configs ++ [s.emm.cursor]) := by
  have fresh := serves.toLists.cursor_notMem
  have new : (s.addConfig configs port baudrate).portOf s.emm.cursor = port := by
    rw [Serial.portOf_addConfig, Function.update_self]
  have old := serves.toLists.portOf_addConfig_of_mem port baudrate
  refine ⟨serves.toLists.addConfig missing room baudrate, ?_, ?_⟩
  · intro config mem
    rw [latestBaudrate_concat, Serial.baudrateOf_addConfig, SerialCall.initialised]
    rcases List.mem_append.1 mem with before | last
    · have other : config ≠ s.emm.cursor := ne_of_mem_of_not_mem before fresh
      have apart : port ≠ s.portOf config :=
        Ne.symm (Serial.find_eq_none.1 missing config before)
      rw [old config before, if_neg apart, Function.update_of_ne other]
      exact serves.latest config before
    · rw [List.mem_singleton.1 last, new, if_pos rfl, Function.update_self]
      rfl
  · intro call config mem
    rcases List.mem_append.1 mem with earlier | last
    · obtain ⟨listed, same⟩ := serves.returned call config earlier
      exact ⟨List.mem_append_left _ listed, (old config listed).trans same⟩
    · obtain ⟨rfl, this⟩ := Prod.mk.inj (List.mem_singleton.1 last)
      cases this
      exact ⟨List.mem_append_right _ (List.mem_singleton_self _), new⟩

end InitPort

theorem onDevice_run {α : Type} (x : StateM σ α) (s : Serial σ) :
    onDevice x s = .ok (x.run s.device).1 { s with device := (x.run s.device).2 } := rfl

/-- `serial_init_port` of a port that fails its test returns null. -/
theorem serialInitPort_of_fail {baudrate : UInt32} {dataBits : SerialDataBits}
    {parity : SerialParity} {stopBits : SerialStopBits} (nonzero : baudrate ≠ 0)
    (fails : ((loopBackTest io port baudrate dataBits parity stopBits).run s.device).1 = false) :
    serialInitPort io port baudrate dataBits parity stopBits s = .ok none
      { s with
        device := ((loopBackTest io port baudrate dataBits parity stopBits).run s.device).2 } := by
  rw [serialInitPort, if_neg nonzero, bind_of_ok (onDevice_run _ s),
    bind_of_ok (onDevice_run _ _)]
  exact congrFun (if_neg (Bool.eq_false_iff.1 fails)) _

/-- One that passes it gets its configuration stored. -/
theorem serialInitPort_of_pass {baudrate : UInt32} {dataBits : SerialDataBits}
    {parity : SerialParity} {stopBits : SerialStopBits} {config : UInt32} {s' : Serial σ}
    (nonzero : baudrate ≠ 0)
    (passes : ((loopBackTest io port baudrate dataBits parity stopBits).run s.device).1 = true)
    (stored : upsertSerialConfig port baudrate { s with
      device := ((loopBackTest io port baudrate dataBits parity stopBits).run s.device).2 } =
        .ok (some config) s') :
    serialInitPort io port baudrate dataBits parity stopBits s = .ok (some config) s' := by
  rw [serialInitPort, if_neg nonzero, bind_of_ok (onDevice_run _ s),
    bind_of_ok (onDevice_run _ _)]
  exact (congrFun (if_pos passes) _).trans (bind_of_ok stored)

/-! ## Room -/

theorem passingPorts_cons (io : IoDevice σ) (call : SerialCall) (calls : List SerialCall)
    (device : σ) :
    passingPorts io (call :: calls) device =
      (call.test io device).1.toList ++ passingPorts io calls (call.test io device).2 := rfl

theorem length_passingPorts_le (io : IoDevice σ) (calls : List SerialCall) (device : σ) :
    (passingPorts io calls device).length ≤ calls.length := by
  induction calls generalizing device with
  | nil => exact Nat.le_refl 0
  | cons call calls ih =>
      have one : (call.test io device).1.toList.length ≤ 1 := by
        cases (call.test io device).1 with
        | none => exact Nat.zero_le 1
        | some _ => exact Nat.le_refl 1
      have later := ih (call.test io device).2
      rw [passingPorts_cons, List.length_append, List.length_cons]
      omega

/-- The driver before any call. -/
theorem Serves.start (fresh : s.serialPorts = none) (uncached : s.cachedLookupResult = none) :
    Serves [] s [] := by
  refine ⟨⟨?_, List.nodup_nil, nofun, .nil, ?_⟩, nofun, nofun⟩
  · rw [fresh]
    exact .nil
  · rw [uncached]
    exact nofun

theorem HasRoom.start (heap : 0 < s.emm.cursor)
    (room : s.emm.cursor.toNat + 12 * (passingPorts io calls s.device).toFinset.card ≤
      s.emm.end_.toNat) : HasRoom io calls s [] := by
  refine ⟨heap, ?_⟩
  rw [List.map_nil, List.toFinset_nil, Finset.sdiff_empty]
  exact room

/-- A call that adds no record leaves the room there was. -/
theorem HasRoom.keep {s' : Serial σ} (room : HasRoom io (call :: calls) s configs)
    (device : s'.device = (call.test io s.device).2) (emm : s'.emm = s.emm)
    (ports : configs.map s'.portOf = configs.map s.portOf) : HasRoom io calls s' configs := by
  refine ⟨emm ▸ room.heap, ?_⟩
  have later : (passingPorts io calls s'.device).toFinset ⊆
      (passingPorts io (call :: calls) s.device).toFinset := by
    rw [passingPorts_cons, ← device, List.toFinset_append]
    exact Finset.subset_union_right
  have fewer := Finset.card_le_card (Finset.sdiff_subset_sdiff later
    (Finset.Subset.refl (configs.map s.portOf).toFinset))
  have enough := room.room
  rw [emm, ports]
  omega

/-- A port that passes its test and has no record is one of those there is room for. -/
theorem HasRoom.split (room : HasRoom io (call :: calls) s configs)
    (passes : (call.test io s.device).1 = some port) (missing : s.find configs port = none) :
    s.emm.cursor.toNat + 12 + 12 *
        ((passingPorts io calls (call.test io s.device).2).toFinset \
          (configs.map s.portOf ++ [port]).toFinset).card ≤
      s.emm.end_.toNat := by
  have unlisted : port ∉ configs.map s.portOf := fun mem => by
    obtain ⟨config, listed, same⟩ := List.mem_map.1 mem
    exact Serial.find_eq_none.1 missing config listed same
  set later := (passingPorts io calls (call.test io s.device).2).toFinset
  have wanted : (passingPorts io (call :: calls) s.device).toFinset \
      (configs.map s.portOf).toFinset =
        insert port (later \ (configs.map s.portOf ++ [port]).toFinset) := by
    rw [passingPorts_cons, passes]
    ext other
    simp only [Option.toList_some, List.singleton_append, List.toFinset_cons, Finset.mem_sdiff,
      Finset.mem_insert, List.mem_toFinset, List.mem_append, List.mem_singleton, later]
    by_cases same : other = port
    · subst same
      simp [unlisted]
    · simp [same]
  have enough := room.room
  rw [wanted, Finset.card_insert_of_notMem (by simp)] at enough
  omega

/-- A call that adds a record takes its room. -/
theorem HasRoom.add {s' : Serial σ} (room : HasRoom io (call :: calls) s configs)
    (passes : (call.test io s.device).1 = some port) (missing : s.find configs port = none)
    (device : s'.device = (call.test io s.device).2)
    (emm : s'.emm = { s.emm with cursor := s.emm.cursor + 12 }) {config : UInt32}
    (ports : (configs ++ [config]).map s'.portOf = configs.map s.portOf ++ [port]) :
    HasRoom io calls s' (configs ++ [config]) := by
  have enough := room.split passes missing
  have moved : (s.emm.cursor + 12).toNat = s.emm.cursor.toNat + 12 :=
    toNat_cursor_add (show s.emm.Fits 12 by unfold Emm.Fits; simp only [UInt32.reduceToNat]; omega)
  refine ⟨?_, ?_⟩
  · rw [emm, UInt32.lt_iff_toNat_lt, moved]
    exact Nat.succ_pos _
  · rw [emm, ports, device]
    simp only [moved]
    exact enough

/-! ## Runs -/

/-- A call returns, its result fits the history, and it leaves room for the others. -/
theorem Serves.step (serves : Serves history s configs)
    (room : HasRoom io (call :: calls) s configs) (nonzero : call.NonzeroBaudrate) :
    ∃ result s' configs', call.run io s = .ok result s' ∧
      Serves (history ++ [(call, result)]) s' configs' ∧ HasRoom io calls s' configs' ∧
      s'.device = (call.test io s.device).2 ∧
      ∀ port, SerialCall.initialised port (call, result) = none ↔
        (call.test io s.device).1 ≠ some port := by
  cases call with
  | getPort port =>
      exact ⟨_, _, configs, serialGetPort_eq serves.toLists port, serves.getPort port,
        room.keep rfl rfl rfl, rfl, fun _ => ⟨fun _ => nofun, fun _ => rfl⟩⟩
  | initPort port baudrate dataBits parity stopBits =>
      let tested := (loopBackTest io port baudrate dataBits parity stopBits).run s.device
      have there := serves.setDevice tested.2
      cases passes : tested.1 with
      | false =>
          have test : (if tested.1 then some port else none) = none := by rw [passes]; rfl
          refine ⟨none, _, configs, serialInitPort_of_fail nonzero passes, there.null _,
            room.keep rfl rfl rfl, rfl, fun port' => ?_⟩
          change _ ↔ (if tested.1 then some port else none) ≠ some port'
          rw [test]
          exact ⟨fun _ => nofun, fun _ => rfl⟩
      | true =>
          have test : (if tested.1 then some port else none) = some port := by rw [passes]; rfl
          have only : ∀ config port',
              SerialCall.initialised port' (.initPort port baudrate dataBits parity stopBits,
                some config) = none ↔ (if tested.1 then some port else none) ≠ some port' := by
            intro config port'
            rw [test, SerialCall.initialised]
            simp
          cases found : s.find configs port with
          | some config =>
              have stored := upsertSerialConfig_of_some there.toLists found baudrate
              have same := (there.toLists.find_eq_some.1 found).2
              refine ⟨some config, _, configs, serialInitPort_of_pass nonzero passes stored,
                there.setBaudrate found, room.keep rfl rfl ?_, rfl, only config⟩
              rw [Serial.portOf_setBaudrate, ← same]
              exact congrArg (configs.map ·) (Function.update_eq_self config s.portOf)
          | none =>
              have enough := room.split test found
              have fits : s.emm.Fits 12 := (Nat.le_add_right _ _).trans enough
              have stored := upsertSerialConfig_of_none there.toLists found room.heap fits baudrate
              obtain ⟨emm, device, -⟩ := Serial.addConfig_rest
                { s with device := tested.2 } configs port baudrate
              refine ⟨some s.emm.cursor, _, configs ++ [s.emm.cursor],
                serialInitPort_of_pass nonzero passes stored, there.addConfig found fits,
                room.add test found device emm ?_, device, only s.emm.cursor⟩
              exact there.toLists.ports_addConfig port baudrate

/-- Lookups agree with the history. -/
theorem Serves.agrees (serves : Serves history s configs) : LookupAgrees history s := by
  refine ⟨⟨configs, serves.chain, serves.distinct⟩, fun port => ?_⟩
  refine ⟨s.find configs port, _, serialGetPort_eq serves.toLists port,
    searchPort_eq serves.toLists port, ?_, ?_⟩
  · rw [Serial.find_eq_none]
    constructor
    · intro missing entry mem
      refine SerialCall.initialised_of_ne fun config returned same => ?_
      obtain ⟨listed, port'⟩ := serves.returned entry.1 config (returned ▸ mem)
      exact missing config listed (port'.trans same)
    · intro none config listed same
      have latest := serves.latest config listed
      rw [same, latestBaudrate_eq_none.2 none] at latest
      cases latest
  · intro config found
    obtain ⟨listed, rfl⟩ := serves.toLists.find_eq_some.1 found
    refine ⟨rfl, serves.latest config listed, fun call earlier mem same => ?_⟩
    obtain ⟨listed', same'⟩ := serves.returned call earlier mem
    exact List.inj_on_of_nodup_map serves.distinct listed' listed (same'.trans same)

/-- Some calls are made and the others have room; `passing` pass a test in all of them. -/
structure Serving (io : IoDevice σ) (passing : List UInt16) (calls : List SerialCall)
    (history : List (SerialCall × Option UInt32)) (s : Serial σ) : Prop where
  served : ∃ configs, Serves history s configs ∧ HasRoom io calls s configs
  nonzero : ∀ call ∈ calls, call.NonzeroBaudrate
  passed : ∀ port, (∀ entry ∈ history, SerialCall.initialised port entry = none) ∧
    port ∉ passingPorts io calls s.device ↔ port ∉ passing

theorem Serving.step {passing : List UInt16}
    (serving : Serving io passing (call :: calls) history s) :
    ∃ result s', call.run io s = .ok result s' ∧
      Serving io passing calls (history ++ [(call, result)]) s' := by
  obtain ⟨configs, serves, room⟩ := serving.served
  obtain ⟨result, s', configs', run, served, left, device, initialised⟩ :=
    serves.step room (serving.nonzero call List.mem_cons_self)
  refine ⟨result, s', run, ⟨configs', served, left⟩,
    fun later mem => serving.nonzero later (List.mem_cons_of_mem _ mem), fun port => ?_⟩
  rw [← serving.passed port, List.forall_mem_append, List.forall_mem_singleton, initialised port,
    device, passingPorts_cons, List.mem_append, not_or, Option.mem_toList, and_assoc]

end Steps

/-- The driver at boot. -/
def Serial.boot (records : UInt32 → SerialPort) (emm : Emm) (device : σ) : Serial σ where
  cachedLookupResult := none
  serialPorts := none
  records := records
  emm := emm
  device := device

/-- From boot on, with room for a record of each port that passes a test, the cached
lookup agrees with a search of the list, and the initialised ports are those that
passed. -/
theorem serialGetPort_agrees (io : IoDevice σ) (records : UInt32 → SerialPort) (emm : Emm)
    (device : σ) (calls : List SerialCall) (nonzero : ∀ call ∈ calls, call.NonzeroBaudrate)
    (heap : 0 < emm.cursor)
    (room : emm.cursor.toNat + 12 * (passingPorts io calls device).toFinset.card ≤
      emm.end_.toNat) :
    ∃ history s, runSerialCalls io calls (.boot records emm device) = .ok history s ∧
      LookupAgrees history s ∧
      ∀ port, (∀ entry ∈ history, SerialCall.initialised port entry = none) ↔
        port ∉ passingPorts io calls device := by
  have start : Serving io (passingPorts io calls device) calls [] (.boot records emm device) :=
    ⟨⟨[], .start rfl rfl, .start heap room⟩, nonzero, fun _ => and_iff_right nofun⟩
  obtain ⟨history, s, run, served⟩ := recordEach_ok (fun _ _ _ _ => Serving.step) start
  obtain ⟨configs, serves, -⟩ := served.served
  exact ⟨history, s, run, serves.agrees, fun port =>
    (and_iff_left List.not_mem_nil).symm.trans (served.passed port)⟩

/-- A chip at COM1 that loops bytes back, and nothing at other ports. -/
def loopBackChip : IoDevice UInt8 where
  inb port := do
    let byte ← get
    pure (if port = 0x3F8 then byte else if port = 0x3FD then 0x21 else 0)
  outb port byte := modify fun last => if port = 0x3F8 then byte else last

/-- COM1 is initialised twice, and COM2 fails its test. -/
theorem serialGetPort_agrees_com1 :
    ∃ history s, runSerialCalls loopBackChip
        [.initPort 0x3F8 115200 .eight .none .one, .getPort 0x3F8,
          .initPort 0x2F8 115200 .eight .none .one, .initPort 0x3F8 9600 .eight .none .one]
        (.boot (fun _ => ⟨0, 0, none⟩) ⟨0x200000, 0x300000⟩ 0) = .ok history s ∧
      LookupAgrees history s ∧
      ∀ port, (∀ entry ∈ history, SerialCall.initialised port entry = none) ↔
        port ∉ passingPorts loopBackChip
          [.initPort 0x3F8 115200 .eight .none .one, .getPort 0x3F8,
            .initPort 0x2F8 115200 .eight .none .one,
            .initPort 0x3F8 9600 .eight .none .one] 0 := by
  exact serialGetPort_agrees loopBackChip _ _ _ _ (by decide) (by decide) (by decide)

end ArkoiOs
