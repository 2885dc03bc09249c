import Plexil.Intfc.ResourceArbiter
import Plexil.Util.Descent

/-!
# The resource hierarchy file

The reader of the resource hierarchy, and the requests for which the expansion through
the hierarchy which it has read returns.  The reader checks that each line has a name and
an amount, that a weight is followed by a name and that no resource is defined twice.  It
does not look for cycles, and the expansion follows one without end.
-/

namespace Plexil

/-! ### The reader -/

/-- `strtod`: the number at the start of a text, with what follows it.  Where there is no
number it gives 0 and the whole text. -/
structure NumberReader where
  strtod : List Char → ℚ × List Char
  suffix : ∀ text, (strtod text).2 <:+ text

/-- The characters of `WHITESPACE`. -/
def isWhitespace (c : Char) : Bool :=
  c ∈ [' ', '\t', '\n', '\r', '\x0b', '\x0c']

def skipWhitespace (data : List Char) : List Char := data.dropWhile isWhitespace

/-- The text up to the first white space and the rest. -/
def nextWord (data : List Char) : List Char × List Char := data.span fun c => !isWhitespace c

theorem length_skipWhitespace (data : List Char) :
  (skipWhitespace data).length ≤ data.length
  := (List.dropWhile_suffix isWhitespace).length_le

/-- A word after white space is not empty, so that what remains is shorter. -/
theorem length_nextWord {data : List Char} (h : skipWhitespace data ≠ []) :
  (nextWord (skipWhitespace data)).2.length < data.length
  := by
  have hhead : isWhitespace ((skipWhitespace data).head h) = false := List.head_dropWhile_not isWhitespace h
  have hle := length_skipWhitespace data
  rw [nextWord, List.span_eq_takeWhile_dropWhile]
  revert hhead hle
  generalize skipWhitespace data = word at h
  obtain _ | ⟨c, cs⟩ := word
  · contradiction
  · intro hhead hle
    have hrest := (List.dropWhile_suffix (fun c => !isWhitespace c) (l := cs)).length_le
    rw [List.head_cons] at hhead
    simp only [List.dropWhile_cons, hhead, Bool.not_false, if_true]
    rw [List.length_cons] at hle
    omega

namespace NumberReader

variable (reader : NumberReader)

/-- The loop over the weights and names of children; `false` is an error.  The children
read before an error are kept. -/
def readChildren (data : List Char) (children : List ChildResourceNode) :
    Bool × List ChildResourceNode :=
  if data = [] then (true, children)
  else
    let d := (reader.strtod data).1
    let afterWeight := (reader.strtod data).2
    if d = 0 ∧ afterWeight = data then (false, children)
    else if h : skipWhitespace afterWeight = [] then (false, children)
    else
      let cName := (nextWord (skipWhitespace afterWeight)).1
      let rest := (nextWord (skipWhitespace afterWeight)).2
      readChildren (skipWhitespace rest) (children ++ [⟨String.ofList cName, d, true⟩])
  termination_by data.length
  decreasing_by
    have hword := length_nextWord h
    have hweight := (reader.suffix data).length_le
    exact (length_skipWhitespace _).trans_lt (hword.trans_le hweight)

/-- Reads a line into the hierarchy; `false` is an error. -/
def readLine (hierarchy : ResourceHierarchyMap) (dataStr : List Char) :
    Bool × ResourceHierarchyMap :=
  if skipWhitespace dataStr = [] then (true, hierarchy)
  else if (skipWhitespace dataStr).head? = some '%' then (true, hierarchy)
  else
    -- A C string ends at the first null character.
    let data := (skipWhitespace dataStr).takeWhile fun c => c ≠ '\x00'
    let (pName, data) := nextWord data
    let maxCons := (reader.strtod data).1
    let rest := (reader.strtod data).2
    if maxCons = 0 ∧ rest = data then (false, hierarchy)
    else if String.ofList pName ∈ hierarchy then (false, hierarchy)
    else
      let (result, children) := reader.readChildren (skipWhitespace rest) []
      (result, hierarchy.insert (String.ofList pName) ⟨children, maxCons⟩)

/-- Reads lines up to an error. -/
def readLines : List (List Char) → ResourceHierarchyMap → Bool × ResourceHierarchyMap
  | [], hierarchy => (true, hierarchy)
  | line :: lines, hierarchy =>
    let (result, hierarchy) := reader.readLine hierarchy line
    if result then readLines lines hierarchy else (false, hierarchy)

/-- Reads a text; `false` is an error. -/
def readResourceHierarchy (text : List Char) : Bool × ResourceHierarchyMap :=
  reader.readLines (text.splitOn '\n') ∅

/-- Unsigned decimal integers, as `strtod` reads them. -/
def digits : NumberReader where
  strtod text :=
    let numeral := (skipWhitespace text).takeWhile Char.isDigit
    if numeral = [] then (0, text)
    else (numeral.foldl (fun n c => 10 * n + (c.toNat - '0'.toNat)) 0,
      (skipWhitespace text).dropWhile Char.isDigit)
  suffix text := by
    dsimp only
    split
    · apply List.suffix_rfl
    · exact (List.dropWhile_suffix _).trans (List.dropWhile_suffix _)

end NumberReader

/-! ### The children of a resource -/

/-- `c` is a child of the resource `r`. -/
def IsChild (resourceHierarchy : ResourceHierarchyMap) (r c : ResourceName) : Prop :=
  ∃ node, resourceHierarchy.lookup r = some node ∧ c ∈ node.children.map ChildResourceNode.name

theorem finite_children (resourceHierarchy : ResourceHierarchyMap) :
  {c | ∃ r, IsChild resourceHierarchy r c}.Finite
  := by
  apply Set.Finite.subset (List.finite_toSet
    (resourceHierarchy.entries.flatMap fun entry =>
      entry.2.children.map ChildResourceNode.name))
  rintro c ⟨r, node, hnode, hchild⟩
  apply List.mem_flatMap.mpr
  use ⟨r, node⟩, AList.mem_lookup_iff.mp hnode

/-! ### The depth of the recursion -/

variable {resourceHierarchy : ResourceHierarchyMap}

/-- What is found within a depth is found within any greater depth. -/
theorem determineChildResources_mono {depth depth' : Nat} (hdepth : depth ≤ depth')
    {resName : ResourceName} {release : Bool} {flattenedRes : List ChildResourceNode}
    (h : determineChildResources resourceHierarchy depth resName release = some flattenedRes) :
  determineChildResources resourceHierarchy depth' resName release = some flattenedRes
  := by
  induction depth generalizing depth' resName flattenedRes with
  | zero => cases h
  | succ depth ih =>
    obtain _ | depth' := depth'
    · omega
    rw [determineChildResources] at h ⊢
    split at h
    · exact h
    · obtain ⟨parts, hparts, heq⟩ := Option.map_eq_some_iff.mp h
      apply Option.map_eq_some_iff.mpr
      use parts
      refine ⟨?_, heq⟩
      apply Descent.mapM_mono _ hparts
      intro child _ part hpart
      obtain ⟨descendants, hdescendants, hpart⟩ := Option.map_eq_some_iff.mp hpart
      rw [ih (by omega) hdescendants]
      exact congrArg some hpart

/-- The walk from a resource returns within a depth exactly when the walks from its
children return within one less. -/
theorem determineChildResources_isSome_succ (depth : Nat) (resName : ResourceName)
    (release : Bool) :
  (determineChildResources resourceHierarchy (depth + 1) resName release).isSome
    ↔ ∀ c, IsChild resourceHierarchy resName c →
      (determineChildResources resourceHierarchy depth c release).isSome
  := by
  rw [determineChildResources]
  split
  · rename_i hlookup
    apply iff_of_true rfl
    rintro c ⟨node, hnode, -⟩
    rw [hlookup] at hnode
    cases hnode
  · rename_i node hlookup
    rw [Option.isSome_map, Descent.mapM_isSome_iff]
    simp only [Option.isSome_map]
    constructor
    · rintro h c ⟨node', hnode', hc⟩
      rw [hlookup] at hnode'
      obtain rfl := Option.some.inj hnode'
      obtain ⟨child, hchild, rfl⟩ := List.mem_map.mp hc
      apply h child hchild
    · intro h child hchild
      apply h
      use node, hlookup
      apply List.mem_map_of_mem hchild

theorem monotone_isSome (resName : ResourceName) (release : Bool) :
  Monotone fun depth =>
    ((determineChildResources resourceHierarchy depth resName release).isSome : Prop)
  := by
  intro depth depth' hdepth h
  obtain ⟨flattenedRes, hflattened⟩ := Option.isSome_iff_exists.mp h
  exact Option.isSome_iff_exists.mpr ⟨_, determineChildResources_mono hdepth hflattened⟩

/-- The walk from a resource returns exactly when there is no infinite chain of children
from it. -/
theorem determineChildResources_returns_iff (resName : ResourceName) (release : Bool) :
  (∃ depth, (determineChildResources resourceHierarchy depth resName release).isSome)
    ↔ Descent.Descends (IsChild resourceHierarchy) resName
  := by
  constructor
  · rintro ⟨depth, h⟩
    induction depth generalizing resName with
    | zero => cases h
    | succ depth ih =>
      rw [determineChildResources_isSome_succ] at h
      apply Descent.Descends.intro
      intro c hc
      apply ih
      apply h c hc
  · intro h
    apply h.induction
    intro r _ ih
    have hchildren : ∀ c ∈ ((resourceHierarchy.lookup r).toList.flatMap ResourceNode.children).map
          ChildResourceNode.name,
        ∃ depth, (determineChildResources resourceHierarchy depth c release).isSome := by
      intro c hc
      apply ih
      cases hlookup : resourceHierarchy.lookup r with
      | none => simp [hlookup] at hc
      | some node => exact ⟨node, hlookup, by simpa [hlookup] using hc⟩
    obtain ⟨depth, hdepth⟩ := Descent.exists_depth (fun c => monotone_isSome c release) hchildren
    use depth + 1
    rw [determineChildResources_isSome_succ]
    rintro c ⟨node, hnode, hc⟩
    apply hdepth
    simpa [hnode] using hc

/-- The resources of a command are determined exactly when the walks from the requested
resources return. -/
theorem resourcesNeeded_isSome_iff (depth : Nat) (requests : List ResourceValue) :
  (resourcesNeeded resourceHierarchy depth requests).isSome
    ↔ ∀ request ∈ requests, (determineChildResources resourceHierarchy depth request.name
        request.releaseAtTermination).isSome
  := by
  unfold resourcesNeeded
  generalize (∅ : ResourceSet) = resources
  induction requests generalizing resources with
  | nil => simp
  | cons request requests ih =>
    rw [List.foldlM_cons, List.forall_mem_cons, determineAllChildResources]
    cases determineChildResources resourceHierarchy depth request.name
        request.releaseAtTermination with
    | none => simp
    | some descendants => simpa using ih _

/-- The expansion of requests returns exactly when no cycle can be reached from them. -/
theorem resourcesNeeded_returns_iff (resourceHierarchy : ResourceHierarchyMap)
    (requests : List ResourceValue) :
  (∃ depth resources, resourcesNeeded resourceHierarchy depth requests = some resources)
    ↔ ∀ request ∈ requests, Descent.NoCycle (IsChild resourceHierarchy) request.name
  := by
  simp only [← Option.isSome_iff_exists, resourcesNeeded_isSome_iff]
  constructor
  · rintro ⟨depth, h⟩ request hrequest
    rw [← Descent.descends_iff_noCycle (finite_children resourceHierarchy)]
    rw [← determineChildResources_returns_iff _ request.releaseAtTermination]
    use depth
    apply h request hrequest
  · intro h
    apply Descent.exists_depth
    · intro request
      apply monotone_isSome
    · intro request hrequest
      rw [determineChildResources_returns_iff]
      rw [Descent.descends_iff_noCycle (finite_children resourceHierarchy)]
      apply h request hrequest

/-! ### Accepted files -/

/-- A text which is accepted as a hierarchy. -/
structure HierarchyFile (reader : NumberReader) where
  text : List Char
  hierarchy : ResourceHierarchyMap
  accepted : reader.readResourceHierarchy text = (true, hierarchy)

/-- With an accepted hierarchy, the expansion of the requests of a command returns exactly
when no cycle can be reached from a requested resource. -/
theorem HierarchyFile.flattening_returns_iff {reader : NumberReader}
    (file : HierarchyFile reader) (requests : List ResourceValue) :
  (∃ depth resources, resourcesNeeded file.hierarchy depth requests = some resources)
    ↔ ∀ request ∈ requests, Descent.NoCycle (IsChild file.hierarchy) request.name
  := by
  apply Plexil.resourcesNeeded_returns_iff

/-- A file with a resource which is its own child. -/
def cyclicText : List Char := "A 1 1 A".toList

def cyclicHierarchy : ResourceHierarchyMap :=
  (NumberReader.digits.readResourceHierarchy cyclicText).2

/-- The file is accepted. -/
def cyclicFile : HierarchyFile NumberReader.digits where
  text := cyclicText
  hierarchy := cyclicHierarchy
  accepted := by
    refine Prod.ext ?_ rfl
    decide +kernel

theorem cyclicHierarchy_self :
  IsChild cyclicHierarchy "A" "A"
  := by
  have hlookup : (cyclicHierarchy.lookup "A").map
      (fun node => node.children.map ChildResourceNode.name) = some ["A"] := by
    decide +kernel
  obtain ⟨node, hnode, hchildren⟩ := Option.map_eq_some_iff.mp hlookup
  use node, hnode
  rw [hchildren]
  apply List.mem_cons_self

/-- A request for the resource of the file does not return. -/
theorem cyclicFile_not_returns :
  ¬ ∀ (reader : NumberReader) (file : HierarchyFile reader) (requests : List ResourceValue),
    ∃ depth resources, resourcesNeeded file.hierarchy depth requests = some resources
  := by
  intro h
  have hreturns := h NumberReader.digits cyclicFile [⟨"A", 1, 0, true⟩]
  rw [Plexil.resourcesNeeded_returns_iff] at hreturns
  apply hreturns _ List.mem_cons_self "A" Relation.ReflTransGen.refl
  apply Relation.TransGen.single
  apply cyclicHierarchy_self

end Plexil
