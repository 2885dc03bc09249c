import Plexil.AppFramework.WrapperPlans

/-!
# Arguments of plans

`StartPlan` hands known Booleans, Integers and strings over as they are.  Every command is
acknowledged once, and a command which fails adds no plan.  The root nodes of the plans have
different names as long as the serial numbers do not repeat.
-/

namespace Plexil.Launcher

open Xml

variable {reals : RealFormat} {factories : Document.Factories} {libraries : Libraries}

/-! ### The command -/

/-- The arguments of `StartPlan` for the name of a plan, and names and values of parameters. -/
def startPlanArguments (name : StringValue) (pairs : List (StringValue × Intfc.Value)) : List Intfc.Value :=
  .string name :: pairs.flatMap fun p => [.string p.1, p.2]

theorem readPairs_eq_some {args : List Intfc.Value} {formals : List StringValue} {actuals : List Intfc.Value} :
  readPairs args = some (formals, actuals) ↔
    ∃ pairs : List (StringValue × Intfc.Value), args = pairs.flatMap (fun p => [.string p.1, p.2]) ∧
      (∀ p ∈ pairs, p.2.isKnown = true) ∧ formals = pairs.map Prod.fst ∧
      actuals = pairs.map Prod.snd
  := by
  constructor
  · intro h
    fun_induction readPairs args generalizing formals actuals with
    | case1 =>
      cases h
      exact ⟨[], rfl, by simp, rfl, rfl⟩
    | case2 => contradiction
    | case3 formal actual rest hknown ih =>
      obtain ⟨⟨formals', actuals'⟩, hrest, heq⟩ := Option.map_eq_some_iff.mp h
      cases heq
      obtain ⟨pairs, rfl, hpairs, rfl, rfl⟩ := ih hrest
      exact ⟨(formal, actual) :: pairs, rfl, List.forall_mem_cons.mpr ⟨hknown, hpairs⟩, rfl, rfl⟩
    | case4 => contradiction
    | case5 => contradiction
  · rintro ⟨pairs, rfl, hknown, rfl, rfl⟩
    induction pairs with
    | nil => rfl
    | cons p rest ih =>
      rw [List.forall_mem_cons] at hknown
      rw [List.flatMap_cons, List.cons_append, List.cons_append, List.nil_append, readPairs,
        if_pos hknown.1, ih hknown.2]
      rfl

/-- The arguments are read. -/
theorem exists_pairs {args : List Intfc.Value} {name : StringValue}
    (hname : checkPlanNameArgument args = some name) {formals : List StringValue}
    {actuals : List Intfc.Value} (h : readPairs args.tail = some (formals, actuals)) :
  ∃ pairs, args = startPlanArguments name pairs ∧ (∀ p ∈ pairs, p.2.isKnown = true) ∧
    formals = pairs.map Prod.fst ∧ actuals = pairs.map Prod.snd
  := by
  obtain ⟨pairs, hargs, hknown, hformals, hactuals⟩ := readPairs_eq_some.mp h
  refine ⟨pairs, ?_, hknown, hformals, hactuals⟩
  cases args with
  | nil => contradiction
  | cons first rest =>
    cases first <;> cases hname
    rw [List.tail_cons] at hargs
    rw [hargs]
    rfl

variable (reals factories libraries)

/-- What the command does with arguments which are read. -/
def startPlan (serial : BitVec 32) (name : StringValue) (pairs : List (StringValue × Intfc.Value)) :
    BitVec 32 × List AdapterCall :=
  match parsePlan reals factories libraries
      (wrapperPlan reals (callerId name (serial + 1)) name pairs) with
  | .error _ => (serial + 1, commandFailed)
  | .ok plan => (serial + 1, [.handleAddPlan plan,
      .handleCommandReturn (.string (bytes (callerId name (serial + 1)))),
      .handleCommandAck .success, .notifyOfExternalEvent])

variable {reals factories libraries}

theorem executeStartPlanCommand_eq {serial : BitVec 32} {name : StringValue}
    {pairs : List (StringValue × Intfc.Value)} (hknown : ∀ p ∈ pairs, p.2.isKnown = true) :
  executeStartPlanCommand reals factories libraries serial (startPlanArguments name pairs) =
    startPlan reals factories libraries serial name pairs
  := by
  have hread : readPairs (startPlanArguments name pairs).tail =
      some (pairs.map Prod.fst, pairs.map Prod.snd) :=
    readPairs_eq_some.mpr ⟨pairs, rfl, hknown, rfl, rfl⟩
  unfold executeStartPlanCommand
  rw [show checkPlanNameArgument (startPlanArguments name pairs) = some name from rfl]
  dsimp only
  rw [hread]
  dsimp only
  rw [makeWrapperPlanXml_eq]
  rfl

/-- The command fails, or its arguments are read. -/
theorem executeStartPlanCommand_cases (serial : BitVec 32) (args : List Intfc.Value) :
  executeStartPlanCommand reals factories libraries serial args = (serial, commandFailed) ∨
    ∃ name pairs, args = startPlanArguments name pairs ∧ (∀ p ∈ pairs, p.2.isKnown = true) ∧
      executeStartPlanCommand reals factories libraries serial args =
        startPlan reals factories libraries serial name pairs
  := by
  cases hname : checkPlanNameArgument args with
  | none =>
    left
    unfold executeStartPlanCommand
    rw [hname]
  | some name =>
    cases hread : readPairs args.tail with
    | none =>
      left
      unfold executeStartPlanCommand
      rw [hname]
      dsimp only
      rw [hread]
    | some read =>
      right
      obtain ⟨pairs, rfl, hknown, -, -⟩ := exists_pairs hname hread
      exact ⟨name, pairs, rfl, hknown, executeStartPlanCommand_eq hknown⟩

/-! ### Identifiers -/

theorem callerId_ne_nul {name : StringValue} (h : NulFree name) (serial : BitVec 32) :
  ∀ c ∈ callerId name serial, c ≠ '\x00'
  := by
  intro c hc
  rcases List.mem_append.mp hc with hc | hc
  · apply chars_ne_nul h c hc
  · rcases List.mem_cons.mp hc with rfl | hc
    · decide
    · apply digits_ne_nul _ c hc

theorem digits_ne_underscore (n : Nat) :
  ∀ c ∈ Nat.toDigits 10 n, c ≠ '_'
  := by
  rintro c hc rfl
  have hdigit := Strtol.isDigit_toDigits n _ hc
  exact absurd hdigit (by decide)

/-- The digits behind the last underscore. -/
theorem takeWhile_callerId (name : StringValue) (serial : BitVec 32) :
  (callerId name serial).reverse.takeWhile (fun c => c ≠ '_') =
    (Nat.toDigits 10 serial.toNat).reverse
  := by
  unfold callerId
  rw [List.reverse_append, List.reverse_cons, List.append_assoc,
    List.takeWhile_append_of_pos]
  · simp
  · intro c hc
    apply decide_eq_true
    apply digits_ne_underscore _ c (List.mem_reverse.mp hc)

/-- The serial number is that of the identifier. -/
theorem serial_of_callerId {name name' : StringValue} {serial serial' : BitVec 32}
    (h : callerId name serial = callerId name' serial') :
  serial = serial'
  := by
  have hdigits := takeWhile_callerId name serial
  rw [h, takeWhile_callerId name' serial'] at hdigits
  apply BitVec.eq_of_toNat_eq
  rw [← Strtol.value_toDigits serial.toNat, ← Strtol.value_toDigits serial'.toNat,
    List.reverse_injective hdigits]

/-! ### Plans which are added -/

def AdapterCall.acknowledgement : AdapterCall → Option CommandHandleValue
  | handleCommandAck value => some value
  | _ => none

def AdapterCall.addedPlan : AdapterCall → Option LoadedPlan
  | handleAddPlan plan => some plan
  | _ => none

def acknowledgements (calls : List AdapterCall) : List CommandHandleValue :=
  calls.filterMap AdapterCall.acknowledgement

def addedPlans (calls : List AdapterCall) : List LoadedPlan :=
  calls.filterMap AdapterCall.addedPlan

/-- The library can be started with these values: they are the values of In parameters, have the
declared types, and constants of these types are accepted. -/
structure Passable (library : Library) (name : StringValue) (pairs : List (StringValue × Intfc.Value)) :
    Prop where
  nulFree : NulFree name
  parameters : ∀ p ∈ pairs, NulFree p.1 ∧ Plain p.2 ∧
    ∃ d, (.in, d) ∈ library.root.header.interface ∧ d.name = nameOf p.1 ∧
      d.type = p.2.valueType
  distinct : (pairs.map Prod.fst).Nodup
  accepted : library.Accepts (pairs.map fun p => (nameOf p.1, p.2.valueType))

/-- There is a name of a library, behind it different names with known values, and the value of an
In parameter has its type. -/
def WellFormed (libraries : Libraries) (args : List Intfc.Value) : Prop :=
  ∃ name pairs library, args = startPlanArguments name pairs ∧
    (∀ p ∈ pairs, p.2.isKnown = true ∧ nameOf p.1 ≠ "") ∧
    (pairs.map fun p => nameOf p.1).Nodup ∧
    libraries.getLibraryNode (nameOf name) = some library ∧
    ∀ p ∈ pairs, ∀ d, (.in, d) ∈ library.root.header.interface → d.name = nameOf p.1 →
      d.type = p.2.valueType

/-- What `StartPlan` does. -/
structure PassesArguments (reals : RealFormat) (factories : Document.Factories)
    (libraries : Libraries) : Prop where
  passed : ∀ serial name pairs library, libraries.getLibraryNode (nameOf name) = some library →
    Passable library name pairs →
    ∃ plan, executeStartPlanCommand reals factories libraries serial
        (startPlanArguments name pairs) = (serial + 1, [.handleAddPlan plan,
          .handleCommandReturn (.string (bytes (callerId name (serial + 1)))),
          .handleCommandAck .success, .notifyOfExternalEvent]) ∧
      plan.rootId = String.ofList (callerId name (serial + 1)) ∧
      ∀ p ∈ pairs, plan.valueOf (nameOf p.1) = some p.2
  refused : ∀ serial args, ¬ WellFormed libraries args →
    (executeStartPlanCommand reals factories libraries serial args).2 = commandFailed
  acknowledged : ∀ serial args,
    let calls := (executeStartPlanCommand reals factories libraries serial args).2
    (acknowledgements calls = [.failed] ∧ addedPlans calls = []) ∨
      ∃ plan, acknowledgements calls = [.success] ∧ addedPlans calls = [plan]
  fresh : ∀ serial commands, commands.length ≤ 2 ^ 32 →
    (∀ args ∈ commands, ∀ name, checkPlanNameArgument args = some name → NulFree name) →
    ((executeCommands reals factories libraries serial commands).flatMap fun calls =>
      (addedPlans calls).map LoadedPlan.rootId).Nodup

/-! ### Values -/

theorem isKnown_plain {v : Intfc.Value} (h : Plain v) :
  v.isKnown = true
  := by
  cases h <;> rfl

theorem nameOf_injOn {s t : StringValue} (hs : NulFree s) (ht : NulFree t)
    (h : nameOf s = nameOf t) :
  s = t
  := by
  rw [nameOf_eq hs, nameOf_eq ht] at h
  apply chars_injective (String.ofList_injective h)

theorem Passable.names {library : Library} {name : StringValue}
    {pairs : List (StringValue × Intfc.Value)} (h : Passable library name pairs) :
  (pairs.map fun p => nameOf p.1).Nodup
  := by
  have hmap : (pairs.map Prod.fst).map nameOf = pairs.map fun p => nameOf p.1 := by
    rw [List.map_map]
    rfl
  rw [← hmap]
  apply h.distinct.map_on
  simp only [List.forall_mem_map]
  intro p hp q hq heq
  apply nameOf_injOn (h.parameters p hp).1 (h.parameters q hq).1 heq

/-- A wrapper plan with such values is accepted when the library accepts the call. -/
theorem parsePlan_plain {library : Library} {name : StringValue}
    {pairs : List (StringValue × Intfc.Value)} (serial : BitVec 32)
    (hfound : libraries.getLibraryNode (nameOf name) = some library) (hname : NulFree name)
    (hplain : ∀ p ∈ pairs, Plain p.2) (hnames : ∀ p ∈ pairs, nameOf p.1 ≠ "")
    (hdistinct : (pairs.map fun p => nameOf p.1).Nodup)
    (haccepts : library.Accepts (pairs.map fun p => (nameOf p.1, p.2.valueType))) :
  ∃ nodes, parsePlan reals factories libraries
      (wrapperPlan reals (callerId name serial) name pairs) =
        .ok ⟨String.ofList (callerId name serial), pairs.map fun p => (nameOf p.1, p.2), nodes⟩ ∧
    Xml.parsePlan [] (callNode (String.ofList (callerId name serial))
      (pairs.map fun p => (nameOf p.1, p.2.valueType)) library) = .ok nodes
  := by
  have hcaller : cString (callerId name serial) = callerId name serial :=
    cString_eq_self (callerId_ne_nul hname serial)
  have hne : cString (callerId name serial) ≠ [] := by
    rw [hcaller]
    simp [callerId]
  have hcallee : nameOf name ≠ "" := by
    intro hempty
    rw [hempty, libraries.named] at hfound
    contradiction
  obtain ⟨nodes, hnodes⟩ := (accepts_iff (String.ofList (callerId name serial))).mp haccepts
  refine ⟨nodes, parsePlan_eq_ok.mpr ⟨checkChildren_wrapper hne,
    checkLibraryCall_wrapper.mpr ⟨hcallee, hnames, hdistinct⟩, ?_, library, _, nodes, hfound,
    finalizeAliases_plain hplain, ?_, ?_⟩, hnodes⟩
  · intro a ha
    obtain ⟨p, hp, rfl⟩ := List.mem_map.mp ha
    apply checkAliasValue_plain (hplain p hp)
  · rw [List.map_map]
    show Xml.parsePlan [] (callNode (String.ofList (cString (callerId name serial))) _ _) = _
    rw [hcaller]
    exact hnodes
  · show _ = LoadedPlan.mk (String.ofList (cString (callerId name serial))) _ _
    rw [hcaller]

/-- The wrapper plan for values of parameters is accepted, and the parameters have the values. -/
theorem Passable.parsePlan {library : Library} {name : StringValue}
    {pairs : List (StringValue × Intfc.Value)} (h : Passable library name pairs)
    (hfound : libraries.getLibraryNode (nameOf name) = some library) (serial : BitVec 32) :
  ∃ plan, parsePlan reals factories libraries (wrapperPlan reals (callerId name serial) name pairs)
      = .ok plan ∧
    plan.rootId = String.ofList (callerId name serial) ∧
    ∀ p ∈ pairs, plan.valueOf (nameOf p.1) = some p.2
  := by
  have hnames : ∀ p ∈ pairs, nameOf p.1 ≠ "" := by
    intro p hp
    obtain ⟨-, -, d, hd, hname, -⟩ := h.parameters p hp
    rw [← hname]
    apply library.named
    exact List.mem_append_right _ (List.mem_map_of_mem (f := Prod.snd) hd)
  have hplain : ∀ p ∈ pairs, Plain p.2 := fun p hp => (h.parameters p hp).2.1
  obtain ⟨nodes, hplan, hnodes⟩ :=
    parsePlan_plain serial hfound h.nulFree hplain hnames h.names h.accepted
  refine ⟨_, hplan, rfl, fun p hp => ?_⟩
  obtain ⟨-, -, d, hd, hdname, htype⟩ := h.parameters p hp
  have hlookup : (pairs.map fun p => (nameOf p.1, p.2.valueType)).lookup (nameOf p.1) =
      some p.2.valueType := lookup_map_of_mem h.names hp
  rw [← hdname] at hlookup
  obtain ⟨-, caller, callee, rest, rfl, hlocal⟩ := parameter_of_call hnodes hd hlookup
  unfold LoadedPlan.valueOf
  dsimp only
  rw [← hdname, hlocal, hdname]
  exact lookup_map_of_mem h.names hp

/-- The arguments of an accepted wrapper plan are well formed. -/
theorem wellFormed_of_parsePlan {callerName : List Char} {name : StringValue}
    {pairs : List (StringValue × Intfc.Value)} (hknown : ∀ p ∈ pairs, p.2.isKnown = true)
    {plan : LoadedPlan}
    (h : parsePlan reals factories libraries (wrapperPlan reals callerName name pairs) = .ok plan) :
  WellFormed libraries (startPlanArguments name pairs)
  := by
  obtain ⟨-, hcall, -, library, aliases, nodes, hfound, haliases, hnodes, -⟩ :=
    parsePlan_eq_ok.mp h
  obtain ⟨-, hnames, hdistinct⟩ := checkLibraryCall_wrapper.mp hcall
  rw [types_of_finalizeAliases hknown haliases] at hnodes
  refine ⟨name, pairs, library, rfl, fun p hp => ⟨hknown p hp, hnames p hp⟩, hdistinct, hfound,
    fun p hp d hd hdname => ?_⟩
  have hlookup : (pairs.map fun p => (nameOf p.1, p.2.valueType)).lookup (nameOf p.1) =
      some p.2.valueType := lookup_map_of_mem hdistinct hp
  rw [← hdname] at hlookup
  exact (parameter_of_call hnodes hd hlookup).1

/-! ### Runs -/

/-- The names of the root nodes of the plans which are added. -/
def rootIds (calls : List AdapterCall) : List String := (addedPlans calls).map LoadedPlan.rootId

/-- A command adds no plan, or one whose root node is named by the next serial number. -/
theorem rootIds_executeStartPlanCommand (serial : BitVec 32) {args : List Intfc.Value}
    (hname : ∀ name, checkPlanNameArgument args = some name → NulFree name) :
  executeStartPlanCommand reals factories libraries serial args = (serial, commandFailed) ∨
    (executeStartPlanCommand reals factories libraries serial args).1 = serial + 1 ∧
      (rootIds (executeStartPlanCommand reals factories libraries serial args).2 = [] ∨
        ∃ name, rootIds (executeStartPlanCommand reals factories libraries serial args).2 =
          [String.ofList (callerId name (serial + 1))])
  := by
  rcases executeStartPlanCommand_cases serial args with h | ⟨name, pairs, rfl, hknown, h⟩
  · exact .inl h
  · right
    rw [h]
    unfold startPlan
    split
    · exact ⟨rfl, .inl rfl⟩
    · rename_i plan hplan
      refine ⟨rfl, .inr ⟨name, ?_⟩⟩
      obtain ⟨-, -, -, library, aliases, nodes, -, -, -, rfl⟩ := parsePlan_eq_ok.mp hplan
      have hcaller : cString (callerId name (serial + 1)) = callerId name (serial + 1) :=
        cString_eq_self (callerId_ne_nul (hname name rfl) _)
      exact congrArg (fun text => [String.ofList text]) hcaller

/-- The root nodes are named by the serial numbers which follow, each at most once. -/
theorem rootIds_executeCommands (serial : BitVec 32) (commands : List (List Intfc.Value))
    (hlength : commands.length ≤ 2 ^ 32)
    (hnames : ∀ args ∈ commands, ∀ name, checkPlanNameArgument args = some name → NulFree name) :
  ((executeCommands reals factories libraries serial commands).flatMap rootIds).Nodup ∧
    ∀ id ∈ (executeCommands reals factories libraries serial commands).flatMap rootIds,
      ∃ name k, id = String.ofList (callerId name (serial + BitVec.ofNat 32 k)) ∧
        1 ≤ k ∧ k ≤ commands.length
  := by
  induction commands generalizing serial with
  | nil => simp [executeCommands]
  | cons args rest ih =>
    rw [List.forall_mem_cons] at hnames
    rw [List.length_cons] at hlength
    unfold executeCommands
    dsimp only
    rw [List.flatMap_cons]
    rcases rootIds_executeStartPlanCommand serial hnames.1 with h | ⟨hserial, hids⟩
    · obtain ⟨hnodup, hrest⟩ := ih serial (by omega) hnames.2
      rw [h]
      refine ⟨hnodup, fun id hid => ?_⟩
      obtain ⟨name, k, rfl, hk, hk'⟩ := hrest id hid
      exact ⟨name, k, rfl, hk, by rw [List.length_cons]; omega⟩
    · rw [hserial]
      obtain ⟨hnodup, hrest⟩ := ih (serial + 1) (by omega) hnames.2
      have hfollow : ∀ id ∈ (executeCommands reals factories libraries (serial + 1) rest).flatMap
          rootIds, ∃ name k, id = String.ofList (callerId name (serial + BitVec.ofNat 32 k)) ∧
            2 ≤ k ∧ k ≤ rest.length + 1 := by
        intro id hid
        obtain ⟨name, k, rfl, hk, hk'⟩ := hrest id hid
        refine ⟨name, k + 1, ?_, by omega, by omega⟩
        rw [BitVec.ofNat_add, BitVec.add_assoc, BitVec.add_comm (BitVec.ofNat 32 k)]
        rfl
      rw [List.length_cons]
      rcases hids with hids | ⟨name, hids⟩
      · rw [hids, List.nil_append]
        refine ⟨hnodup, fun id hid => ?_⟩
        obtain ⟨name, k, rfl, hk, hk'⟩ := hfollow id hid
        exact ⟨name, k, rfl, by omega, by omega⟩
      · rw [hids, List.singleton_append, List.nodup_cons]
        refine ⟨⟨fun hmem => ?_, hnodup⟩, fun id hid => ?_⟩
        · obtain ⟨name', k, heq, hk, hk'⟩ := hfollow _ hmem
          have hserial := serial_of_callerId (String.ofList_injective heq)
          have hsame : (1 : BitVec 32) = BitVec.ofNat 32 k := by
            rwa [BitVec.add_right_inj] at hserial
          have hnat : 1 = k % 2 ^ 32 := congrArg BitVec.toNat hsame
          omega
        · rcases List.mem_cons.mp hid with rfl | hid
          · exact ⟨name, 1, rfl, by omega, by omega⟩
          · obtain ⟨name', k, rfl, hk, hk'⟩ := hfollow id hid
            exact ⟨name', k, rfl, by omega, by omega⟩

/-- `StartPlan` passes its arguments, and acknowledges every command once. -/
theorem startPlan_passesArguments (reals : RealFormat) (factories : Document.Factories)
    (libraries : Libraries) :
  PassesArguments reals factories libraries
  where
  passed serial name pairs library hfound h := by
    obtain ⟨plan, hplan, hroot, hvalues⟩ := h.parsePlan hfound (serial + 1)
    have hknown : ∀ p ∈ pairs, p.2.isKnown = true := fun p hp =>
      isKnown_plain (h.parameters p hp).2.1
    refine ⟨plan, ?_, hroot, hvalues⟩
    rw [executeStartPlanCommand_eq hknown]
    unfold startPlan
    rw [hplan]
  refused serial args h := by
    rcases executeStartPlanCommand_cases serial args with hfailed | ⟨name, pairs, rfl, hknown, heq⟩
    · rw [hfailed]
    · rw [heq]
      unfold startPlan
      split
      · rfl
      · rename_i plan hplan
        exact absurd (wellFormed_of_parsePlan hknown hplan) h
  acknowledged serial args := by
    rcases executeStartPlanCommand_cases serial args with hfailed | ⟨name, pairs, rfl, hknown, heq⟩
    · rw [hfailed]
      exact .inl ⟨rfl, rfl⟩
    · rw [heq]
      unfold startPlan
      split
      · exact .inl ⟨rfl, rfl⟩
      · rename_i plan hplan
        exact .inr ⟨plan, rfl, rfl⟩
  fresh serial commands hlength hnames :=
    (rootIds_executeCommands serial commands hlength hnames).1

/-! ### Other arguments -/

/-- The types of arguments which plans have, apart from real numbers. -/
def argumentTypes : List ValueType :=
  [.boolean, .integer, .string, .booleanArray, .integerArray, .stringArray]

/-- There is a name of a library, and behind it names of its In parameters with known values of
their types. -/
def OfParameters (libraries : Libraries) (args : List Intfc.Value) : Prop :=
  ∃ name pairs library, args = startPlanArguments name pairs ∧
    libraries.getLibraryNode (nameOf name) = some library ∧
    ∀ p ∈ pairs, p.2.isKnown = true ∧ p.2.valueType ∈ argumentTypes ∧
      ∃ d, (.in, d) ∈ library.root.header.interface ∧ d.name = nameOf p.1 ∧
        d.type = p.2.valueType

/-- Arguments for In parameters are passed, whatever their values are, and all others are
refused. -/
def PassesExactlyParameters (reals : RealFormat) (factories : Document.Factories)
    (libraries : Libraries) : Prop :=
  ∀ serial args,
    let calls := (executeStartPlanCommand reals factories libraries serial args).2
    (OfParameters libraries args → ∃ plan, addedPlans calls = [plan] ∧
      acknowledgements calls = [.success] ∧
      ∀ name pairs, args = startPlanArguments name pairs →
        ∀ p ∈ pairs, plan.valueOf (nameOf p.1) = some p.2) ∧
    (¬ OfParameters libraries args → calls = commandFailed)

/-- A library with the name `A`, which has a parameter `x` with a default. -/
def plainLibrary : Library where
  root := .leaf { nodeId := "A", interface := [(.in, ⟨"x", .integer, some (.other .integer true)⟩)] }
  globalMutexes := []
  named := by decide
  distinct := by decide

def plainLibraries : Libraries where
  getLibraryNode name := if name = "A" then some plainLibrary else none
  named := rfl

example : Passable plainLibrary (bytes [ 'A']) [(bytes [ 'x'], .integer 7)] where
  nulFree := List.forall_mem_singleton.mpr (by decide)
  parameters := List.forall_mem_singleton.mpr ⟨List.forall_mem_singleton.mpr (by decide),
    .integer 7, _, List.mem_singleton_self _, by decide, rfl⟩
  distinct := by decide
  accepted := ⟨"", _, rfl⟩

theorem eq_plainLibrary {name : String} {library : Library}
    (h : plainLibraries.getLibraryNode name = some library) :
  library = plainLibrary
  := by
  unfold plainLibraries at h
  dsimp only at h
  split at h <;> cases h
  rfl

/-- A name which is not that of a parameter is not refused: the aliases of a call need not be
parameters. -/
theorem not_passesExactlyParameters :
  ¬ ∀ reals factories libraries, PassesExactlyParameters reals factories libraries
  := by
  intro h
  let reals : RealFormat := ⟨fun _ => [], fun _ => .ok none⟩
  let factories : Document.Factories :=
    ⟨fun _ => .ok .unknown, fun _ _ _ _ => .ok .unknown, fun _ _ _ _ _ => .error .noBody,
      fun _ _ _ _ => .error .noBody⟩
  let pairs : List (StringValue × Intfc.Value) := [(bytes [ 'y'], .integer 5)]
  have hplain : ∀ p ∈ pairs, Plain p.2 := List.forall_mem_singleton.mpr (.integer 5)
  have hfound : plainLibraries.getLibraryNode (nameOf (bytes [ 'A'])) = some plainLibrary := by
    unfold plainLibraries
    dsimp only
    rw [if_pos (by decide)]
  have hname : NulFree (bytes [ 'A']) := List.forall_mem_singleton.mpr (by decide)
  obtain ⟨nodes, hplan, -⟩ := @parsePlan_plain reals factories plainLibraries plainLibrary _ pairs
    (0 + 1) hfound hname hplain (by decide) (by decide) ⟨"", _, rfl⟩
  have hnot : ¬ OfParameters plainLibraries (startPlanArguments (bytes [ 'A']) pairs) := by
    rintro ⟨name, pairs', library, hargs, hlibrary, hparameters⟩
    cases pairs' with
    | nil => cases hargs
    | cons p rest =>
      obtain ⟨formal, actual⟩ := p
      have hformal : bytes [ 'y'] = formal := by
        injection hargs with _ htail
        injection htail with hfirst
        injection hfirst
      subst hformal
      obtain ⟨-, -, d, hd, hdname, -⟩ := hparameters _ (List.mem_cons_self ..)
      rw [eq_plainLibrary hlibrary] at hd
      cases List.mem_singleton.mp hd
      exact absurd (show "x" = nameOf (bytes [ 'y']) from hdname) (by decide)
  have hcalls := (h reals factories plainLibraries 0 _).2 hnot
  rw [executeStartPlanCommand_eq (by decide)] at hcalls
  unfold startPlan at hcalls
  rw [hplan] at hcalls
  cases hcalls

end Plexil.Launcher
