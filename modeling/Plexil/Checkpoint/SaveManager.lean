import Plexil.Util.StateMachine
import Plexil.Util.Strtol
import Mathlib.Data.List.AList
import Mathlib.Data.String.Basic

/-!
# The checkpoint system

The checkpoints of a process and of the processes before it, and the files in which they are saved,
`CheckpointSystem` and `SimpleSaveManager`.  A process can end at any moment, also between two
operations on the files.  Texts of numbers and times, and XML documents, are written and read by
libraries.
-/

namespace Plexil.Checkpoint

/-! ### Checkpoints -/

structure CheckpointData (Time : Type) where
  state : Bool
  time : Option Time
  info : String

/-- A `std::map` of checkpoints, which is ordered by their names. -/
structure CheckpointMap (Time : Type) where
  entries : List (String × CheckpointData Time)
  sorted : entries.Pairwise fun x y => x.1 < y.1

namespace CheckpointMap

variable {Time : Type}

instance : EmptyCollection (CheckpointMap Time) := ⟨⟨[], .nil⟩⟩

/-- Insertion in order; the value of a name which is present is replaced if so wanted. -/
def addEntry (replace : Bool) (x : String × CheckpointData Time) :
    List (String × CheckpointData Time) → List (String × CheckpointData Time)
  | [] => [x]
  | y :: l =>
    if x.1 < y.1 then x :: y :: l
    else if y.1 < x.1 then y :: addEntry replace x l
    else if replace then x :: l
    else y :: l

theorem name_of_mem_addEntry {replace : Bool} {x y : String × CheckpointData Time}
    {l : List (String × CheckpointData Time)} (h : y ∈ addEntry replace x l) :
  y = x ∨ y ∈ l
  := by
  fun_induction addEntry replace x l with
  | case1 => simpa using h
  | case2 => simpa using h
  | case3 z l _ _ ih =>
    obtain rfl | h := List.mem_cons.mp h
    · simp
    · exact (ih h).imp_right fun h => List.mem_cons_of_mem _ h
  | case4 z l =>
    obtain rfl | h := List.mem_cons.mp h
    · simp
    · exact .inr (List.mem_cons_of_mem _ h)
  | case5 => exact .inr h

theorem addEntry_sorted {replace : Bool} {x : String × CheckpointData Time}
    {l : List (String × CheckpointData Time)} (h : l.Pairwise fun x y => x.1 < y.1) :
  (addEntry replace x l).Pairwise fun x y => x.1 < y.1
  := by
  fun_induction addEntry replace x l with
  | case1 => simp
  | case2 y l hlt =>
    refine List.pairwise_cons.mpr ⟨fun z hz => ?_, h⟩
    obtain rfl | hz := List.mem_cons.mp hz
    · exact hlt
    · exact hlt.trans ((List.pairwise_cons.mp h).1 z hz)
  | case3 y l _ hlt ih =>
    obtain ⟨hy, hl⟩ := List.pairwise_cons.mp h
    refine List.pairwise_cons.mpr ⟨fun z hz => ?_, ih hl⟩
    obtain rfl | hz := name_of_mem_addEntry hz
    · exact hlt
    · exact hy z hz
  | case4 y l hle hge =>
    obtain ⟨hy, hl⟩ := List.pairwise_cons.mp h
    have heq : x.1 = y.1 := le_antisymm (not_lt.mp hge) (not_lt.mp hle)
    refine List.pairwise_cons.mpr ⟨fun z hz => ?_, hl⟩
    rw [heq]
    exact hy z hz
  | case5 => exact h

/-- `checkpoints[name] = data`. -/
def set (m : CheckpointMap Time) (name : String) (data : CheckpointData Time) :
    CheckpointMap Time :=
  ⟨addEntry true (name, data) m.entries, addEntry_sorted m.sorted⟩

/-- `checkpoints.insert`, which does not replace a value. -/
def insert (m : CheckpointMap Time) (x : String × CheckpointData Time) : CheckpointMap Time :=
  ⟨addEntry false x m.entries, addEntry_sorted m.sorted⟩

end CheckpointMap

structure BootData (Time : Type) where
  bootTime : Option Time
  crashTime : Option Time
  isOK : Bool
  checkpoints : CheckpointMap Time

/-! ### Documents -/

/-- An element with its attributes and the elements in it. -/
inductive Element where
  | mk (name : String) (attributes : List (String × String)) (children : List Element)

namespace Element

def name : Element → String
  | .mk name _ _ => name

/-- The value of an attribute, which is empty if there is none. -/
def attributeValue : Element → String → String
  | .mk _ attributes _, name => (attributes.lookup name).getD ""

def children : Element → List Element
  | .mk _ _ children => children

end Element

/-- A name which is read back from a document: a letter or an underscore, and then letters, digits
and some other characters. -/
def isXmlName (name : String) : Bool :=
  match name.toList with
  | [] => false
  | c :: cs =>
    (c.isAlpha || c = '_' || c = ':' || 128 ≤ c.toNat) &&
      cs.all fun c => c.isAlphanum || c = '_' || c = ':' || c = '-' || c = '.' || 128 ≤ c.toNat

/-- All names in a document are read back. -/
inductive Element.Readable : Element → Prop where
  | mk {name : String} {attributes : List (String × String)} {children : List Element} :
      isXmlName name = true → (∀ x ∈ attributes, isXmlName x.1 = true) →
      (∀ e ∈ children, Readable e) → Readable (.mk name attributes children)

/-- What the libraries do: the texts of times with `std::fixed` and `std::strtod`, and the functions
of pugixml. -/
structure Libraries (Time File : Type) where
  timeText : Time → String
  strtod : String → Time
  boolText : Bool → String
  asBool : String → Bool
  intText : ℤ → String
  asInt : String → ℤ
  saveFile : Element → File
  loadFile : File → Option Element

/-- What is documented of the libraries. -/
structure Libraries.Lawful {Time File : Type} (lib : Libraries Time File) : Prop where
  timeText_ne (t : Time) : lib.timeText t ≠ ""
  asBool_boolText (b : Bool) : lib.asBool (lib.boolText b) = b
  asInt_intText {n : ℤ} : -2 ^ 31 ≤ n → n < 2 ^ 31 → lib.asInt (lib.intText n) = n
  loadFile_saveFile {e : Element} : e.Readable → lib.loadFile (lib.saveFile e) = some e

namespace Libraries

variable {Time File : Type} (lib : Libraries Time File)

def timeToString : Option Time → String
  | some time => lib.timeText time
  | none => ""

def stringToTime (s : String) : Option Time := if s = "" then none else some (lib.strtod s)

/-- The element of a checkpoint. -/
def checkpointElement (x : String × CheckpointData Time) : Element :=
  .mk x.1 [("state", lib.boolText x.2.state), ("time", lib.timeToString x.2.time),
    ("info", x.2.info)] []

/-- The element of the boot of a number; the current one, of number 0, gets the time `now` as that
of its end. -/
def bootElement (now : Option Time) (x : BootData Time × ℕ) : Element :=
  .mk ("boot_" ++ toString x.2)
    [("time_of_boot", lib.timeToString x.1.bootTime),
      ("time_of_crash", lib.timeToString (if x.2 = 0 then now else x.1.crashTime)),
      ("is_ok", lib.boolText x.1.isOK)]
    (x.1.checkpoints.entries.map lib.checkpointElement)

/-- The document of `writeToFile`. -/
def document (now : Option Time) (numTotalBoots : ℤ) (data : List (BootData Time)) : Element :=
  .mk "SimpleSaveManager_Save" [("num_total_boots", lib.intText numTotalBoots)]
    (data.zipIdx.map (lib.bootElement now))

/-- A checkpoint as `loadCrashes` reads it. -/
def readCheckpoint (e : Element) : String × CheckpointData Time :=
  (e.name, ⟨lib.asBool (e.attributeValue "state"), lib.stringToTime (e.attributeValue "time"),
    e.attributeValue "info"⟩)

def readBoot (e : Element) : BootData Time :=
  ⟨lib.stringToTime (e.attributeValue "time_of_boot"),
    lib.stringToTime (e.attributeValue "time_of_crash"), lib.asBool (e.attributeValue "is_ok"),
    (e.children.map lib.readCheckpoint).foldl CheckpointMap.insert ∅⟩

end Libraries

/-! ### Files -/

/-- The contents of the files `n_save.xml` in a directory. -/
abbrev Saves (File : Type) := AList fun _ : ℕ => File

def longMax : ℤ := 2 ^ 63 - 1

/-- The smallest and the greatest number of a save. -/
def findOldestNewestFiles {File : Type} (saves : Saves File) : ℤ × ℤ :=
  saves.keys.foldl (fun r n => (min r.1 n, max r.2 n)) (longMax, -1)

/-! ### The process -/

/-- What remains of a call of `writeOut`. -/
inductive Activity (File : Type) where
  | idle
  | removing (saveNumber : ℕ) (oldest : Option ℕ)
  | writing (saveNumber : ℕ)
  | moving (saveNumber : ℕ) (part : File)
  | succeeding (retval : Bool)

/-- A process, with the boots which it knows and its own as the first of them. -/
structure Process (Time File Command : Type) where
  removeOldSaves : Bool
  dataVector : List (BootData Time)
  numTotalBoots : ℤ
  queuedCommands : List (Option Command)
  activity : Activity File

/-- The directory if there is one, the process if there is one, and the commands whose success it
has reported. -/
structure System (Time File Command : Type) where
  directory : Option (Saves File)
  process : Option (Process Time File Command)
  acknowledged : List Command

/-- The saves; there are none in a directory which is missing. -/
def System.saves {Time File Command : Type} (s : System Time File Command) : Saves File :=
  s.directory.getD ∅

/-- How the system calls of an action end, and the time. -/
structure Outcome (Time : Type) where
  now : Option Time
  mkdirSucceeds : Bool
  saveSucceeds : Bool

inductive Event (Time Command : Type) where
  /-- A process starts and loads what has been saved; `unset` is the value of an integer which has
  not been set. -/
  | boot (removeOldSaves : Bool) (time : Option Time) (unset : ℤ)
  | setCheckpoint (name : String) (value : Bool) (info : String) (time : Option Time)
      (cmd : Option Command)
  | setOK (b : Bool) (bootNum : ℤ) (cmd : Option Command)
  | flush
  /-- The process goes on with `writeOut`. -/
  | proceed (outcome : Outcome Time)
  | crash

section

variable {Time File Command : Type} (lib : Libraries Time File)

/-- The data with the current boot only. -/
def firstBoot (time : Option Time) : BootData Time := ⟨time, none, false, ∅⟩

/-- The boots which are read from the newest save, and their number. -/
def loadCrashes (saves : Saves File) (time : Option Time) (unset : ℤ) : ℤ × List (BootData Time) :=
  let newest := (findOldestNewestFiles saves).2
  if newest = -1 then (1, [firstBoot time])
  else
    match (saves.lookup newest.toNat).bind lib.loadFile with
    | none => (unset, [firstBoot time])
    | some doc =>
      let root := if doc.name = "SimpleSaveManager_Save" then doc else .mk "" [] []
      (lib.asInt (root.attributeValue "num_total_boots") + 1,
        firstBoot time :: root.children.map lib.readBoot)

/-- A new process. -/
def start (saves : Saves File) (removeOldSaves : Bool) (time : Option Time) (unset : ℤ) :
    Process Time File Command where
  removeOldSaves := removeOldSaves
  dataVector := (loadCrashes lib saves time unset).2
  numTotalBoots := (loadCrashes lib saves time unset).1
  queuedCommands := []
  activity := .idle

/-- A call of `writeOut` finds the files. -/
def Process.writeOut (p : Process Time File Command) (saves : Saves File) :
    Process Time File Command :=
  let oldestNewest := findOldestNewestFiles saves
  { p with
    activity := .removing
      (if oldestNewest.2 = -1 then 1 else (oldestNewest.2 + 1).toNat)
      (if oldestNewest.1 ≠ oldestNewest.2 ∧ p.removeOldSaves then some oldestNewest.1.toNat
        else none) }

/-- `CheckpointSystem::setCheckpoint` up to the call of `writeOut`. -/
def Process.setCheckpoint (p : Process Time File Command) (name : String)
    (data : CheckpointData Time) (cmd : Option Command) : Process Time File Command :=
  { p with
    dataVector := p.dataVector.modifyHead fun boot =>
      { boot with checkpoints := boot.checkpoints.set name data }
    queuedCommands := p.queuedCommands ++ [cmd] }

/-- `CheckpointSystem::setOK` for a valid boot, up to the call of `writeOut`. -/
def Process.setOK (p : Process Time File Command) (b : Bool) (bootNum : ℕ) (cmd : Option Command) :
    Process Time File Command :=
  { p with
    dataVector := p.dataVector.modify bootNum fun boot => { boot with isOK := b }
    queuedCommands := p.queuedCommands ++ [cmd] }

/-- The next action of `writeOut`.  A directory which is missing is made, but `mkdir_p` returns 0
when it succeeds, which is taken for a failure, and nothing is saved. -/
def System.proceed (s : System Time File Command) (p : Process Time File Command)
    (outcome : Outcome Time) : Option (System Time File Command) :=
  match p.activity with
  | .idle => none
  | .removing saveNumber oldest =>
    some { s with
      directory := s.directory.map fun saves => (oldest.map saves.erase).getD saves
      process := some { p with activity := .writing saveNumber } }
  | .writing saveNumber =>
    if s.directory.isNone then
      some { s with
        directory := if outcome.mkdirSucceeds then some ∅ else none
        process := some { p with activity := .succeeding false } }
    else if outcome.saveSucceeds then
      some { s with
        process := some { p with
          activity := .moving saveNumber
            (lib.saveFile (lib.document outcome.now p.numTotalBoots p.dataVector)) } }
    else some { s with process := some { p with activity := .succeeding false } }
  | .moving saveNumber part =>
    some { s with
      directory := s.directory.map (AList.insert saveNumber part)
      process := some { p with activity := .succeeding true } }
  | .succeeding _ =>
    some { s with
      process := some { p with queuedCommands := [], activity := .idle }
      acknowledged := s.acknowledged ++ p.queuedCommands.filterMap id }

/-- A process which does nothing else. -/
def System.idleProcess (s : System Time File Command) : Option (Process Time File Command) :=
  s.process.filter fun p => match p.activity with
    | .idle => true
    | _ => false

def System.step (s : System Time File Command) :
    Event Time Command → Option (System Time File Command)
  | .boot removeOldSaves time unset =>
    if s.process.isSome then none
    else some { s with process := some (start lib s.saves removeOldSaves time unset) }
  | .setCheckpoint name value info time cmd =>
    s.idleProcess.map fun p => { s with
      process := some ((p.setCheckpoint name ⟨value, time, info⟩ cmd).writeOut s.saves) }
  | .setOK b bootNum cmd =>
    s.idleProcess.map fun p =>
      if 0 ≤ bootNum ∧ bootNum < p.dataVector.length then
        { s with process := some ((p.setOK b bootNum.toNat cmd).writeOut s.saves) }
      else s
  | .flush => s.idleProcess.map fun p => { s with process := some (p.writeOut s.saves) }
  | .proceed outcome => s.process.bind fun p => s.proceed lib p outcome
  | .crash => if s.process.isSome then some { s with process := none } else none

end

/-! ### What is read back from a save -/

namespace CheckpointMap

variable {Time : Type}

@[ext]
theorem ext {m m' : CheckpointMap Time} (h : m.entries = m'.entries) :
  m = m'
  := by
  cases m
  cases m'
  subst h
  rfl

end CheckpointMap

namespace Libraries

variable {Time File : Type} (lib : Libraries Time File)

/-- A time which has been written and read. -/
def rereadTime (time : Option Time) : Option Time := time.map fun t => lib.strtod (lib.timeText t)

def rereadCheckpoint (x : String × CheckpointData Time) : String × CheckpointData Time :=
  (x.1, ⟨x.2.state, lib.rereadTime x.2.time, x.2.info⟩)

def rereadMap (m : CheckpointMap Time) : CheckpointMap Time :=
  ⟨m.entries.map lib.rereadCheckpoint, List.pairwise_map.mpr m.sorted⟩

/-- The data of a boot which have been written and read. -/
def rereadBoot (boot : BootData Time) : BootData Time :=
  ⟨lib.rereadTime boot.bootTime, lib.rereadTime boot.crashTime, boot.isOK,
    lib.rereadMap boot.checkpoints⟩

variable {lib}

/-- The data with a time at which the current boot ended. -/
def stamp (now : Option Time) (data : List (BootData Time)) : List (BootData Time) :=
  data.modifyHead fun boot => { boot with crashTime := now }

end Libraries

/-- The names of all checkpoints are read back from a document. -/
def NamesReadable {Time : Type} (data : List (BootData Time)) : Prop :=
  ∀ boot ∈ data, ∀ x ∈ boot.checkpoints.entries, isXmlName x.1 = true

section

variable {Time File : Type} {lib : Libraries Time File}

/-- The save which a new process loads. -/
structure IsNewest (saves : Saves File) (n : ℕ) (file : File) : Prop where
  lookup : saves.lookup n = some file
  greatest : ∀ m ∈ saves.keys, m ≤ n

theorem findOldestNewestFiles_spec (saves : Saves File) :
  (∀ n ∈ saves.keys, (n : ℤ) ≤ (findOldestNewestFiles saves).2) ∧
    ((findOldestNewestFiles saves).2 = -1 ∨
      ∃ n ∈ saves.keys, (findOldestNewestFiles saves).2 = (n : ℤ)) ∧
    (∀ n ∈ saves.keys, (findOldestNewestFiles saves).1 ≤ (n : ℤ)) ∧
    ((findOldestNewestFiles saves).1 = longMax ∨
      ∃ n ∈ saves.keys, (findOldestNewestFiles saves).1 = (n : ℤ))
  := by
  have hfold (l : List ℕ) (r result : ℤ × ℤ)
      (h : l.foldl (fun r n => (min r.1 n, max r.2 n)) r = result) :
      (r.2 ≤ result.2 ∧ ∀ n ∈ l, (n : ℤ) ≤ result.2) ∧
        (result.2 = r.2 ∨ ∃ n ∈ l, result.2 = (n : ℤ)) ∧
        (result.1 ≤ r.1 ∧ ∀ n ∈ l, result.1 ≤ (n : ℤ)) ∧
        (result.1 = r.1 ∨ ∃ n ∈ l, result.1 = (n : ℤ)) := by
    induction l generalizing r with
    | nil =>
      cases h
      simp
    | cons n l ih =>
      obtain ⟨⟨hle, hall⟩, hnewest, ⟨hge, hall'⟩, holdest⟩ := ih (min r.1 n, max r.2 n) h
      refine ⟨⟨(le_max_left ..).trans hle, ?_⟩, ?_, ⟨hge.trans (min_le_left ..), ?_⟩, ?_⟩
      · exact List.forall_mem_cons.mpr ⟨(le_max_right ..).trans hle, hall⟩
      · grind
      · exact List.forall_mem_cons.mpr ⟨hge.trans (min_le_right ..), hall'⟩
      · grind
  obtain ⟨⟨-, hle⟩, hnewest, ⟨-, hge⟩, holdest⟩ := hfold saves.keys (longMax, -1) _ rfl
  exact ⟨hle, hnewest, hge, holdest⟩

variable {saves : Saves File}

theorem IsNewest.eq {n : ℕ} {file : File} (h : IsNewest saves n file) :
  (findOldestNewestFiles saves).2 = n
  := by
  obtain ⟨hall, hnewest, -, -⟩ := findOldestNewestFiles_spec saves
  have hmem : n ∈ saves.keys := by
    rw [← AList.mem_keys, ← AList.lookup_isSome, h.lookup]
    rfl
  have hge := hall n hmem
  obtain hnewest | ⟨m, hm, hnewest⟩ := hnewest
  · omega
  · have := h.greatest m hm
    omega

/-- The store which the files implement: the number and the data of the boots which have been saved,
and those of the running process. -/
structure Store (Time : Type) where
  saved : Option (ℤ × List (BootData Time))
  current : Option (ℤ × List (BootData Time))

variable (lib) in
/-- The data with which a process starts. -/
def recover (time : Option Time) : Option (ℤ × List (BootData Time)) → ℤ × List (BootData Time)
  | none => (1, [firstBoot time])
  | some (numTotalBoots, data) =>
    (numTotalBoots + 1, firstBoot time :: data.map lib.rereadBoot)

variable (lib) in
/-- What an event does to the store.  A process which goes on may save its data at once. -/
inductive Store.Step {Command : Type} : Event Time Command → Store Time → Store Time → Prop where
  | boot {removeOldSaves : Bool} {time : Option Time} {unset : ℤ}
      {saved : Option (ℤ × List (BootData Time))} :
      Store.Step (.boot removeOldSaves time unset) ⟨saved, none⟩
        ⟨saved, some (recover lib time saved)⟩
  | setCheckpoint {name info : String} {value : Bool} {time : Option Time} {cmd : Option Command}
      {saved : Option (ℤ × List (BootData Time))} {numTotalBoots : ℤ}
      {data : List (BootData Time)} :
      Store.Step (.setCheckpoint name value info time cmd) ⟨saved, some (numTotalBoots, data)⟩
        ⟨saved, some (numTotalBoots, data.modifyHead fun boot =>
          { boot with checkpoints := boot.checkpoints.set name ⟨value, time, info⟩ })⟩
  | setOK {b : Bool} {bootNum : ℤ} {cmd : Option Command}
      {saved : Option (ℤ × List (BootData Time))} {numTotalBoots : ℤ}
      {data : List (BootData Time)} :
      Store.Step (.setOK b bootNum cmd) ⟨saved, some (numTotalBoots, data)⟩
        ⟨saved, some (numTotalBoots, if 0 ≤ bootNum ∧ bootNum < data.length then
          data.modify bootNum.toNat fun boot => { boot with isOK := b } else data)⟩
  | flush {store : Store Time} : Store.Step .flush store store
  | proceed {outcome : Outcome Time} {store : Store Time} :
      Store.Step (.proceed outcome) store store
  | save {outcome : Outcome Time} {now : Option Time}
      {saved : Option (ℤ × List (BootData Time))} {numTotalBoots : ℤ}
      {data : List (BootData Time)} :
      Store.Step (.proceed outcome) ⟨saved, some (numTotalBoots, data)⟩
        ⟨some (numTotalBoots, Libraries.stamp now data), some (numTotalBoots, data)⟩
  | crash {saved current : Option (ℤ × List (BootData Time))} :
      Store.Step .crash ⟨saved, current⟩ ⟨saved, none⟩

/-- The boots have been counted, and they are `c` at most. -/
structure Counted (c : ℕ) (store : Store Time) : Prop where
  saved : ∀ x, store.saved = some x → 0 ≤ x.1 ∧ x.1 ≤ c
  current : ∀ x, store.current = some x → 0 ≤ x.1 ∧ x.1 ≤ c

variable (lib) in
/-- The newest save holds what the store has saved. -/
inductive Holds (saves : Saves File) : Option (ℤ × List (BootData Time)) → Prop where
  | empty : saves.keys = [] → Holds saves none
  | newest {n : ℕ} {now : Option Time} {numTotalBoots : ℤ} {data : List (BootData Time)} :
      NamesReadable data →
      IsNewest saves n (lib.saveFile (lib.document now numTotalBoots data)) →
      Holds saves (some (numTotalBoots, Libraries.stamp now data))

theorem Holds.erase {saved : Option (ℤ × List (BootData Time))} (h : Holds lib saves saved) {m : ℕ}
    (hm : ∀ n file, IsNewest saves n file → n ≠ m) :
  Holds lib (saves.erase m) saved
  := by
  cases h with
  | empty h =>
    apply Holds.empty
    rw [AList.keys_erase, h, List.erase_nil]
  | @newest n now numTotalBoots data hnames hnewest =>
    apply Holds.newest hnames (n := n)
    constructor
    · rw [AList.lookup_erase_ne (hm _ _ hnewest), hnewest.lookup]
    · intro k hk
      rw [AList.keys_erase] at hk
      exact hnewest.greatest k (List.mem_of_mem_erase hk)

variable {Command : Type}

variable (lib) in
/-- What is left of a call of `writeOut` fits the files, the saved data and the process: what is
removed is not the newest save, the number of the new one is greater than all, its text is that of
the data, and once it succeeds the data have been saved. -/
def Fits (s : System Time File Command) (saved : Option (ℤ × List (BootData Time)))
    (p : Process Time File Command) : Prop :=
  match p.activity with
  | .idle => True
  | .removing n oldest =>
    (∀ m ∈ s.saves.keys, m < n) ∧ ∀ m, oldest = some m → ∀ k file, IsNewest s.saves k file → k ≠ m
  | .writing n => ∀ m ∈ s.saves.keys, m < n
  | .moving n part =>
    s.directory.isSome ∧ (∀ m ∈ s.saves.keys, m < n) ∧
      ∃ now, part = lib.saveFile (lib.document now p.numTotalBoots p.dataVector)
  | .succeeding retval =>
    retval = true → ∃ now, saved = some (p.numTotalBoots, Libraries.stamp now p.dataVector)

/-- Nothing has been saved, and no process runs. -/
structure System.Initial (s : System Time File Command) : Prop where
  saves : s.saves.keys = []
  process : s.process = none

/-- What was set of the checkpoints of a boot. -/
def contents (boot : BootData Time) : List (String × Bool × String) :=
  boot.checkpoints.entries.map fun x => (x.1, x.2.state, x.2.info)

/-- The data of an earlier process are kept behind those of the boots since then. -/
structure Keeps (numTotalBoots : ℤ) (data : List (BootData Time)) (store : Store Time) : Prop where
  saved : ∃ (k : ℕ) (saved : List (BootData Time)),
    store.saved = some (numTotalBoots + k, saved) ∧
      (saved.map contents).drop k = data.map contents
  current : ∀ total current, store.current = some (total, current) →
    ∃ k : ℕ, 0 < k ∧ total = numTotalBoots + k ∧
      (current.map contents).drop k = data.map contents

/-- There is room for the new save, which has at most the number `c`. -/
def Room (c : ℕ) (saves : Saves File) : Activity File → Prop
  | .removing n oldest =>
    n ≤ c ∧ (1 < saves.keys.length → ∃ m ∈ saves.keys, oldest = some m)
  | .writing n | .moving n _ => n ≤ c ∧ saves.keys.length ≤ 1
  | _ => True

theorem Room.mono {c c' : ℕ} (hle : c ≤ c') {activity : Activity File}
    (h : Room c saves activity) :
  Room c' saves activity
  := by
  cases activity with
  | idle | succeeding _ => trivial
  | removing _ _ | writing _ | moving _ _ => exact ⟨h.1.trans hle, h.2⟩

end

end Plexil.Checkpoint
