import Plexil.Util.ReferenceCounts

/-!
# Notification of changes

Expressions are activated by those who use them, and they keep lists of listeners.  To save memory,
only the expressions which can change independently of others are listened to: a function with a
listener adds itself to the nearest of these below it when the listener is its first, and removes
itself again when it has lost its last one.  Lookups also listen to their name and parameters, and
those with more than four parameters do not remove themselves from these.

An expression depends on others, but not on itself, and nodes do not depend on expressions.
-/

open ActivationCount

namespace Plexil.Notification

/-- The objects of the graph by their classes, with what they refer to. -/
inductive Listenable (ε : Type) where
  | constant
  | node
  /-- The state, the outcome or the failure type of a node. -/
  | nodeVariable (owner : ε)
  /-- A variable with the expressions which are activated with it, or another notifier which refers
  to nothing. -/
  | userVariable (initializers : List ε)
  | function (exprs : List ε)
  | arrayReference (array index : ε)
  | inAlias (original : ε)
  /-- A function of nodes, or of variables of a command. -/
  | nodeFunction (sources : List ε)
  | lookup (stateName : ε) (params : List ε) (tolerance : Option ε)

namespace Listenable

variable {ε : Type}

/-- `doSubexprs` -/
def subexprs : Listenable ε → List ε
  | constant | node | userVariable _ => []
  | nodeVariable owner => [owner]
  | function exprs => exprs
  | arrayReference array index => [array, index]
  | inAlias original => [original]
  | nodeFunction sources => sources
  | lookup stateName params tolerance => stateName :: params ++ tolerance.toList

/-- What `handleActivate` activates and `handleDeactivate` deactivates. -/
def activated : Listenable ε → List ε
  | userVariable initializers => initializers
  | function exprs => exprs
  | arrayReference array index => [array, index]
  | lookup stateName params tolerance => stateName :: params ++ tolerance.toList
  | _ => []

def isPropagationSource : Listenable ε → Bool
  | node | userVariable _ | lookup _ _ _ => true
  | _ => false

/-- The object has an activation count. -/
def isCounted : Listenable ε → Bool
  | constant | node | nodeVariable _ => false
  | _ => true

def isPropagator : Listenable ε → Bool
  | function _ | arrayReference _ _ | inAlias _ | nodeFunction _ | lookup _ _ _ => true
  | _ => false

/-- The parameters of a lookup. -/
def paramVec : Listenable ε → List ε
  | lookup _ params _ => params
  | _ => []

/-- The other expressions a lookup refers to. -/
def otherParts : Listenable ε → List ε
  | lookup stateName _ tolerance => stateName :: tolerance.toList
  | _ => []

/-- What a lookup listens to besides the nearest sources. -/
def parameters : Listenable ε → List ε
  | lookup stateName params tolerance => tolerance.toList ++ stateName :: params
  | _ => []

end Listenable

/-- A graph of expressions.  What an object refers to comes before it. -/
structure Graph (ε : Type) where
  object : ε → Listenable ε
  rank : ε → Nat
  object_owner {e owner : ε} (h : object e = .nodeVariable owner) : object owner = .node
  subexprs_lt {e s : ε} (h : s ∈ (object e).subexprs) : rank s < rank e
  activated_lt {e s : ε} (h : s ∈ (object e).activated) : rank s < rank e

/-- A listener is an expression or another object. -/
inductive Listener (ε κ : Type) where
  | expr (e : ε)
  | other (l : κ)
  deriving DecidableEq

structure State (ε κ : Type) where
  activeCount : ε → Nat
  listeners : ε → List (Listener ε κ)

variable {ε κ : Type}

def State.initial : State ε κ where
  activeCount _ := 0
  listeners _ := []

namespace Graph

variable (g : Graph ε)

/-! ### Listeners -/

/-- The propagation sources below an expression which are not below other ones. -/
def nearestSources (e : ε) : List ε :=
  (g.object e).subexprs.attach.flatMap fun ⟨s, _⟩ =>
    if (g.object s).isPropagationSource then [s] else nearestSources s
termination_by g.rank e
decreasing_by exact g.subexprs_lt (by assumption)

theorem nearestSources_eq (e : ε) :
  g.nearestSources e = (g.object e).subexprs.flatMap fun s =>
    if (g.object s).isPropagationSource then [s] else g.nearestSources s
  := by
  rw [nearestSources]
  conv_rhs => rw [← List.attach_map_subtype_val (g.object e).subexprs, List.flatMap_map]

theorem rank_nearestSources {e s : ε} (h : s ∈ g.nearestSources e) :
  g.rank s < g.rank e
  := by
  induction hn : g.rank e using Nat.strong_induction_on generalizing e with
  | _ n ih =>
    rw [nearestSources_eq, List.mem_flatMap] at h
    obtain ⟨s', hs', h⟩ := h
    have hlt := g.subexprs_lt hs'
    split_ifs at h
    · rwa [List.mem_singleton.mp h, ← hn]
    · exact (ih (g.rank s') (hn ▸ hlt) h rfl).trans (hn ▸ hlt)

theorem parameters_subset {e : ε} :
  (g.object e).parameters ⊆ (g.object e).subexprs
  := by
  intro s h
  cases hobject : g.object e with
  | lookup stateName params tolerance =>
    rw [hobject, Listenable.parameters, List.mem_append, List.mem_cons] at h
    rw [Listenable.subexprs, List.mem_append, List.mem_cons]
    exact h.symm
  | _ =>
    rw [hobject] at h
    cases h

theorem mem_parameters {e s : ε} :
  s ∈ (g.object e).parameters ↔ s ∈ (g.object e).paramVec ∨ s ∈ (g.object e).otherParts
  := by
  cases g.object e with
  | lookup stateName params tolerance =>
    rw [Listenable.parameters, Listenable.paramVec, Listenable.otherParts, List.mem_append,
      List.mem_cons, List.mem_cons]
    tauto
  | _ => simp [Listenable.parameters, Listenable.paramVec, Listenable.otherParts]

theorem rank_parameters {e s : ε} (h : s ∈ (g.object e).parameters) :
  g.rank s < g.rank e
  := g.subexprs_lt (g.parameters_subset h)

variable [DecidableEq ε] [DecidableEq κ]

/-- `Notifier::addListener` -/
def addToList (listeners : ε → List (Listener ε κ)) (e : ε) (l : Listener ε κ) :
    ε → List (Listener ε κ) :=
  if l ∈ listeners e then listeners else Function.update listeners e (listeners e ++ [l])

/-- `Notifier::removeListener` -/
def removeFromList (listeners : ε → List (Listener ε κ)) (e : ε) (l : Listener ε κ) :
    ε → List (Listener ε κ) :=
  Function.update listeners e ((listeners e).erase l)

/-- The object whose list is used: that of a node variable is its node's. -/
def target (e : ε) : Option ε :=
  match g.object e with
  | .constant => none
  | .nodeVariable owner => some owner
  | _ => some e

/-- `addListener` -/
def addListener (listeners : ε → List (Listener ε κ)) (e : ε) (l : Listener ε κ) :
    ε → List (Listener ε κ) :=
  match g.object e with
  | .constant => listeners
  | .nodeVariable owner => addToList listeners owner l
  | .node | .userVariable _ => addToList listeners e l
  | _ =>
    -- a lookup adds itself to its parameters before it does what the other propagators do
    let listeners :=
      if listeners e = [] then
        (g.object e).parameters.attach.foldl
          (fun listeners ⟨s, _⟩ => addListener listeners s (.expr e)) listeners
      else listeners
    let listeners :=
      if listeners e = [] then
        (g.nearestSources e).attach.foldl
          (fun listeners ⟨s, _⟩ => addListener listeners s (.expr e)) listeners
      else listeners
    addToList listeners e l
termination_by g.rank e
decreasing_by
  · exact g.rank_parameters (by assumption)
  · exact g.rank_nearestSources (by assumption)

/-- `removeListener`.  `GeneralExprVec::removeListener`, that of more than four parameters, calls
`addListener`. -/
def removeListener (listeners : ε → List (Listener ε κ)) (e : ε) (l : Listener ε κ) :
    ε → List (Listener ε κ) :=
  match g.object e with
  | .constant => listeners
  | .nodeVariable owner => removeFromList listeners owner l
  | .node | .userVariable _ => removeFromList listeners e l
  | _ =>
    let listeners := removeFromList listeners e l
    let listeners :=
      if listeners e = [] then
        (g.nearestSources e).attach.foldl
          (fun listeners ⟨s, _⟩ => removeListener listeners s (.expr e)) listeners
      else listeners
    let listeners :=
      if listeners e = [] then
        (g.object e).paramVec.attach.foldl
          (fun listeners ⟨s, _⟩ =>
            if (g.object e).paramVec.length ≤ 4 then removeListener listeners s (.expr e)
            else g.addListener listeners s (.expr e)) listeners
      else listeners
    if listeners e = [] then
      (g.object e).otherParts.attach.foldl
        (fun listeners ⟨s, _⟩ => removeListener listeners s (.expr e)) listeners
    else listeners
termination_by g.rank e
decreasing_by
  · exact g.rank_nearestSources (by assumption)
  · exact g.rank_parameters (g.mem_parameters.mpr (.inl (by assumption)))
  · exact g.rank_parameters (g.mem_parameters.mpr (.inr (by assumption)))

/-! ### Activation -/

/-- `Notifier::activate` and `handleActivate`, with no effect on objects without a count -/
def activate (counts : ε → Nat) (e : ε) : ε → Nat :=
  if (g.object e).isCounted then
    let counts' := Function.update counts e (counts e + 1)
    if counts e = 0 then
      (g.object e).activated.attach.foldl (fun counts ⟨s, _⟩ => activate counts s) counts'
    else counts'
  else counts
termination_by g.rank e
decreasing_by exact g.activated_lt (by assumption)

/-- `Notifier::deactivate` and `handleDeactivate`; the assertion fails when the count is zero -/
def deactivate (counts : ε → Nat) (e : ε) : Option (ε → Nat) :=
  if (g.object e).isCounted then
    if counts e = 0 then none
    else
      let counts' := Function.update counts e (counts e - 1)
      if counts e = 1 then
        (g.object e).activated.attach.foldlM (fun counts ⟨s, _⟩ => deactivate counts s) counts'
      else some counts'
  else some counts
termination_by g.rank e
decreasing_by exact g.activated_lt (by assumption)

/-! ### Runs -/

variable (ε κ) in
/-- What the users of the expressions do. -/
inductive Operation where
  | addListener (e : ε) (l : κ)
  | removeListener (e : ε) (l : κ)
  | activate (e : ε)
  | deactivate (e : ε)

def step (st : State ε κ) : Operation ε κ → Option (State ε κ)
  | .addListener e l => some { st with listeners := g.addListener st.listeners e (.other l) }
  | .removeListener e l => some { st with listeners := g.removeListener st.listeners e (.other l) }
  | .activate e => some { st with activeCount := g.activate st.activeCount e }
  | .deactivate e => do
    let activeCount ← g.deactivate st.activeCount e
    return { st with activeCount }

def run (operations : List (Operation ε κ)) : Option (State ε κ) :=
  operations.foldlM g.step State.initial

/-- `isActive` -/
def isActive (st : State ε κ) (e : ε) : Bool := !(g.object e).isCounted || 0 < st.activeCount e

/-! ### The order of the graph -/

section Order

omit [DecidableEq ε] [DecidableEq κ]

variable {g} {e : ε}

theorem rank_target {t : ε} (h : g.target e = some t) :
  g.rank t ≤ g.rank e
  := by
  rw [target] at h
  split at h
  · cases h
  · rename_i owner hobject
    rw [← Option.some.inj h]
    apply (g.subexprs_lt _).le
    rw [hobject]
    exact List.mem_singleton_self owner
  · rw [Option.some.inj h]

/-- A propagator has a list of its own. -/
theorem target_propagator (h : (g.object e).isPropagator = true) :
  g.target e = some e
  := by
  rw [target]
  split
  · rename_i hobject
    rw [hobject] at h
    cases h
  · rename_i hobject
    rw [hobject] at h
    cases h
  · rfl

/-- The list of a propagator is used for no other object. -/
theorem eq_of_target_propagator {t : ε} (h : g.target e = some t)
    (ht : (g.object t).isPropagator = true) :
  t = e
  := by
  rw [target] at h
  split at h
  · cases h
  · rename_i owner hobject
    rw [← Option.some.inj h, g.object_owner hobject] at ht
    cases ht
  · exact (Option.some.inj h).symm

/-- An expression adds itself to these when it gets its first listener. -/
def heard (g : Graph ε) (e : ε) : List ε := (g.object e).parameters ++ g.nearestSources e

theorem mem_heard {s : ε} :
  s ∈ g.heard e ↔
    s ∈ (g.object e).paramVec ∨ s ∈ (g.object e).otherParts ∨ s ∈ g.nearestSources e
  := by
  rw [heard, List.mem_append, mem_parameters, or_assoc]

/-- The propagator has the object in whose list it enters itself when it has a listener. -/
def Hears (g : Graph ε) (p x : ε) : Prop :=
  (g.object p).isPropagator = true ∧ ∃ s ∈ g.heard p, g.target s = some x

/-- A lookup remains in the list of the object when it has lost its listeners. -/
def Leaks (g : Graph ε) (p x : ε) : Prop :=
  4 < (g.object p).paramVec.length ∧ (∃ s ∈ (g.object p).paramVec, g.target s = some x) ∧
    ∀ s ∈ (g.object p).otherParts, g.target s ≠ some x

theorem rank_heard {s : ε} (h : s ∈ g.heard e) :
  g.rank s < g.rank e
  := by
  rw [heard, List.mem_append] at h
  exact h.elim g.rank_parameters g.rank_nearestSources

end Order

/-! ### Adding a listener -/

variable {g} {listeners : ε → List (Listener ε κ)} {e x : ε} {l m : Listener ε κ}

/-- What happens at an object which is no propagator. -/
theorem addListener_leaf (h : (g.object e).isPropagator = false) :
  g.addListener listeners e l = (g.target e).elim listeners fun t => addToList listeners t l
  := by
  rw [addListener, target]
  split
  · rename_i hobject
    rw [hobject]
    rfl
  · rename_i hobject
    rw [hobject]
    rfl
  · rename_i hobject
    rw [hobject]
    rfl
  · rename_i hobject
    rw [hobject]
    rfl
  · exfalso
    cases hobject : g.object e <;> simp_all [Listenable.isPropagator]

theorem addListener_phases (h : (g.object e).isPropagator = true) :
  g.addListener listeners e l =
    let listeners' :=
      if listeners e = [] then
        (g.object e).parameters.foldl (fun ls s => g.addListener ls s (.expr e)) listeners
      else listeners
    addToList (if listeners' e = [] then
      (g.nearestSources e).foldl (fun ls s => g.addListener ls s (.expr e)) listeners'
    else listeners') e l
  := by
  have hattach (xs : List ε) (ls : ε → List (Listener ε κ)) :
      xs.attach.foldl (fun ls s => g.addListener ls s.1 (.expr e)) ls =
        xs.foldl (fun ls s => g.addListener ls s (.expr e)) ls :=
    List.foldl_attach (f := fun ls s => g.addListener ls s (.expr e))
  rw [addListener]
  split <;> rename_i hobject
  iterate 4
    rw [hobject] at h
    cases h
  dsimp only
  rw [hattach, hattach]

theorem addToList_of_ne (h : x ≠ e) :
  addToList listeners e l x = listeners x
  := by
  rw [addToList]
  split_ifs
  · rfl
  · exact Function.update_of_ne h _ _

theorem mem_addToList :
  m ∈ addToList listeners e l x ↔ m ∈ listeners x ∨ m = l ∧ e = x
  := by
  by_cases hx : x = e
  · subst hx
    rw [addToList]
    split_ifs with hl
    · constructor
      · exact Or.inl
      · rintro (h | ⟨rfl, -⟩)
        · exact h
        · exact hl
    · rw [Function.update_self, List.mem_append, List.mem_singleton]
      exact or_congr_right (and_iff_left rfl).symm
  · rw [addToList_of_ne hx]
    constructor
    · exact Or.inl
    · rintro (h | ⟨-, rfl⟩)
      · exact h
      · exact absurd rfl hx

/-- Adding a listener to an expression does not change the lists of those which come after it. -/
theorem addListener_frame (h : g.rank e < g.rank x) :
  g.addListener listeners e l x = listeners x
  := by
  induction hn : g.rank e using Nat.strong_induction_on generalizing listeners e l with
  | _ n ih =>
    have hfold (xs : List ε) (hxs : ∀ s ∈ xs, g.rank s < g.rank e) (ls : ε → List (Listener ε κ)) :
        xs.foldl (fun ls s => g.addListener ls s (.expr e)) ls x = ls x := by
      apply List.foldlRecOn (motive := fun ls' : ε → List (Listener ε κ) => ls' x = ls x) _ _ rfl
      intro ls' hls' s hs
      have hlt := hxs s hs
      rw [ih (g.rank s) (hn ▸ hlt) (hlt.trans h) rfl, hls']
    cases hprop : (g.object e).isPropagator with
    | false =>
      rw [addListener_leaf hprop]
      cases htarget : g.target e with
      | none => rfl
      | some t =>
        apply addToList_of_ne
        rintro rfl
        exact absurd (rank_target htarget) (Nat.not_le.mpr h)
    | true =>
      have hne : x ≠ e := by
        rintro rfl
        exact lt_irrefl _ h
      rw [addListener_phases hprop, addToList_of_ne hne]
      split_ifs
      · rw [hfold _ fun s => g.rank_nearestSources, hfold _ fun s => g.rank_parameters]
      · exact hfold _ (fun s => g.rank_parameters) _
      · rfl

theorem foldl_addListener_frame {xs : List ε} (hxs : ∀ s ∈ xs, g.rank s < g.rank x) :
  xs.foldl (fun ls s => g.addListener ls s l) listeners x = listeners x
  := by
  apply List.foldlRecOn (motive := fun ls : ε → List (Listener ε κ) => ls x = listeners x) _ _ rfl
  intro ls hls s hs
  rw [addListener_frame (hxs s hs), hls]

/-- The first listener makes the expression a listener of what it hears. -/
theorem addListener_propagator (h : (g.object e).isPropagator = true) :
  g.addListener listeners e l =
    addToList (if listeners e = [] then
      (g.heard e).foldl (fun ls s => g.addListener ls s (.expr e)) listeners
    else listeners) e l
  := by
  rw [addListener_phases h]
  by_cases hnil : listeners e = []
  · have hframe : (g.object e).parameters.foldl
        (fun ls s => g.addListener ls s (.expr e)) listeners e = [] := by
      rwa [foldl_addListener_frame fun s => g.rank_parameters]
    dsimp only
    rw [if_pos hnil, if_pos hframe, if_pos hnil, heard, List.foldl_append]
  · simp only [if_neg hnil]

/-- The listener is no expression which comes before the other one. -/
def Foreign (g : Graph ε) (e : ε) (m : Listener ε κ) : Prop := ∀ p, m = .expr p → g.rank e < g.rank p

omit [DecidableEq ε] [DecidableEq κ] in
theorem Foreign.ne (h : g.Foreign e m) :
  m ≠ .expr e
  := by
  intro heq
  exact lt_irrefl _ (h e heq)

omit [DecidableEq ε] [DecidableEq κ] in
theorem Foreign.heard (h : g.Foreign e m) {s : ε} (hs : s ∈ g.heard e) :
  g.Foreign s m
  := by
  intro p hp
  exact (rank_heard hs).trans (h p hp)

omit [DecidableEq ε] [DecidableEq κ] in
theorem foreign_heard {s : ε} (hs : s ∈ g.heard e) :
  g.Foreign s (.expr e : Listener ε κ)
  := by
  intro p hp
  rw [← Listener.expr.inj hp]
  exact rank_heard hs

theorem mem_foldl_addListener {xs : List ε}
    (hadd : ∀ s ∈ xs, ∀ {listeners : ε → List (Listener ε κ)} {l : Listener ε κ},
      m ∈ g.addListener listeners s l x ↔ m ∈ listeners x ∨ m = l ∧ g.target s = some x) :
  m ∈ xs.foldl (fun ls s => g.addListener ls s l) listeners x ↔
    m ∈ listeners x ∨ m = l ∧ ∃ s ∈ xs, g.target s = some x
  := by
  induction xs generalizing listeners with
  | nil => simp
  | cons s xs ih =>
    rw [List.forall_mem_cons] at hadd
    rw [List.foldl_cons, ih hadd.2, hadd.1, List.exists_mem_cons_iff, or_assoc, ← and_or_left]

/-- What is added to the lists besides what the expressions which come before do. -/
theorem mem_addListener (hm : g.Foreign e m) :
  m ∈ g.addListener listeners e l x ↔ m ∈ listeners x ∨ m = l ∧ g.target e = some x
  := by
  induction hn : g.rank e using Nat.strong_induction_on generalizing listeners e l with
  | _ n ih =>
    cases hprop : (g.object e).isPropagator with
    | false =>
      rw [addListener_leaf hprop]
      cases htarget : g.target e with
      | none => simp
      | some t => simp [mem_addToList]
    | true =>
      rw [addListener_propagator hprop, mem_addToList, target_propagator hprop, Option.some.injEq]
      apply or_congr_left
      split_ifs
      · rw [mem_foldl_addListener fun s hs => ih (g.rank s) (hn ▸ rank_heard hs) (hm.heard hs) rfl]
        exact or_iff_left fun h => hm.ne h.1
      · rfl

/-! ### Removing a listener -/

theorem removeListener_leaf (h : (g.object e).isPropagator = false) :
  g.removeListener listeners e l = (g.target e).elim listeners fun t => removeFromList listeners t l
  := by
  rw [removeListener, target]
  split
  · rename_i hobject
    rw [hobject]
    rfl
  · rename_i hobject
    rw [hobject]
    rfl
  · rename_i hobject
    rw [hobject]
    rfl
  · rename_i hobject
    rw [hobject]
    rfl
  · exfalso
    cases hobject : g.object e <;> simp_all [Listenable.isPropagator]

/-- What an expression without listeners leaves, with whether it removes itself there. -/
def left (g : Graph ε) (e : ε) : List (ε × Bool) :=
  (g.nearestSources e).map (·, true) ++
    ((g.object e).paramVec.map (·, decide ((g.object e).paramVec.length ≤ 4)) ++
      (g.object e).otherParts.map (·, true))

def leave (g : Graph ε) (e : ε) (listeners : ε → List (Listener ε κ)) (s : ε × Bool) :
    ε → List (Listener ε κ) :=
  if s.2 then g.removeListener listeners s.1 (.expr e) else g.addListener listeners s.1 (.expr e)

omit [DecidableEq ε] in
theorem heard_of_left {s : ε × Bool} (h : s ∈ g.left e) :
  s.1 ∈ g.heard e
  := by
  rw [mem_heard]
  rw [left, List.mem_append, List.mem_append, List.mem_map, List.mem_map, List.mem_map] at h
  rcases h with ⟨t, ht, rfl⟩ | ⟨t, ht, rfl⟩ | ⟨t, ht, rfl⟩
  · exact .inr (.inr ht)
  · exact .inl ht
  · exact .inr (.inl ht)

theorem removeListener_phases (h : (g.object e).isPropagator = true) :
  g.removeListener listeners e l =
    let listeners' := removeFromList listeners e l
    let listeners' :=
      if listeners' e = [] then
        ((g.nearestSources e).map (·, true)).foldl (g.leave e) listeners'
      else listeners'
    let listeners' :=
      if listeners' e = [] then
        ((g.object e).paramVec.map (·, decide ((g.object e).paramVec.length ≤ 4))).foldl
          (g.leave e) listeners'
      else listeners'
    if listeners' e = [] then
      ((g.object e).otherParts.map (·, true)).foldl (g.leave e) listeners'
    else listeners'
  := by
  have hattach (xs : List ε) (b : Bool) (ls : ε → List (Listener ε κ)) :
      xs.attach.foldl (fun ls s => g.leave e ls (s.1, b)) ls =
        (xs.map (·, b)).foldl (g.leave e) ls := by
    rw [List.foldl_attach (f := fun ls s => g.leave e ls (s, b)), List.foldl_map]
  rw [removeListener]
  split <;> rename_i hobject
  iterate 4
    rw [hobject] at h
    cases h
  dsimp only
  simp only [← hattach, leave, if_true, decide_eq_true_eq]

theorem removeFromList_of_ne (h : x ≠ e) :
  removeFromList listeners e l x = listeners x
  := Function.update_of_ne h _ _

theorem removeFromList_self :
  removeFromList listeners e l e = (listeners e).erase l
  := Function.update_self _ _ _

theorem mem_removeFromList (hnodup : (listeners x).Nodup) :
  m ∈ removeFromList listeners e l x ↔ m ∈ listeners x ∧ ¬ (m = l ∧ e = x)
  := by
  by_cases hx : x = e
  · subst hx
    rw [removeFromList_self, hnodup.mem_erase_iff, and_iff_left rfl, and_comm]
  · rw [removeFromList_of_ne hx, and_iff_left]
    rintro ⟨-, rfl⟩
    exact hx rfl

/-- Removing a listener does not change the lists of the expressions which come after it. -/
theorem removeListener_frame (h : g.rank e < g.rank x) :
  g.removeListener listeners e l x = listeners x
  := by
  induction hn : g.rank e using Nat.strong_induction_on generalizing listeners e l with
  | _ n ih =>
    have hfold (xs : List ε) (hxs : xs ⊆ g.heard e) (b : Bool) (ls : ε → List (Listener ε κ)) :
        (xs.map (·, b)).foldl (g.leave e) ls x = ls x := by
      apply List.foldlRecOn (motive := fun ls' : ε → List (Listener ε κ) => ls' x = ls x) _ _ rfl
      intro ls' hls' s hs
      obtain ⟨t, ht, rfl⟩ := List.mem_map.mp hs
      have hlt := rank_heard (hxs ht)
      rw [leave]
      split_ifs
      · rw [ih (g.rank t) (hn ▸ hlt) (hlt.trans h) rfl, hls']
      · rw [addListener_frame (hlt.trans h), hls']
    cases hprop : (g.object e).isPropagator with
    | false =>
      rw [removeListener_leaf hprop]
      cases htarget : g.target e with
      | none => rfl
      | some t =>
        apply removeFromList_of_ne
        rintro rfl
        exact absurd (rank_target htarget) (Nat.not_le.mpr h)
    | true =>
      have hne : x ≠ e := by
        rintro rfl
        exact lt_irrefl _ h
      have hremoved : removeFromList listeners e l x = listeners x := removeFromList_of_ne hne
      rw [removeListener_phases hprop, ← hremoved]
      have hsources := hfold (g.nearestSources e) fun _ hs => mem_heard.mpr (.inr (.inr hs))
      have hparams := hfold (g.object e).paramVec fun _ hs => mem_heard.mpr (.inl hs)
      have hothers := hfold (g.object e).otherParts fun _ hs => mem_heard.mpr (.inr (.inl hs))
      dsimp only
      split_ifs <;> simp only [hsources, hparams, hothers]

/-- Without its last listener the expression leaves what it hears. -/
theorem removeListener_propagator (h : (g.object e).isPropagator = true) :
  g.removeListener listeners e l =
    if (listeners e).erase l = [] then
      (g.left e).foldl (g.leave e) (removeFromList listeners e l)
    else removeFromList listeners e l
  := by
  rw [removeListener_phases h, ← removeFromList_self]
  by_cases hnil : removeFromList listeners e l e = []
  · have hframe (xs : List ε) (hxs : xs ⊆ g.heard e) (b : Bool) (ls : ε → List (Listener ε κ))
        (hls : ls e = []) : (xs.map (·, b)).foldl (g.leave e) ls e = [] := by
      apply List.foldlRecOn (motive := fun ls : ε → List (Listener ε κ) => ls e = []) _ _ hls
      intro ls hls s hs
      obtain ⟨t, ht, rfl⟩ := List.mem_map.mp hs
      rw [leave]
      split_ifs
      · rw [removeListener_frame (rank_heard (hxs ht)), hls]
      · rw [addListener_frame (rank_heard (hxs ht)), hls]
    have hsources := hframe (g.nearestSources e) (fun _ hs => mem_heard.mpr (.inr (.inr hs))) true
      _ hnil
    have hparams := hframe (g.object e).paramVec (fun _ hs => mem_heard.mpr (.inl hs))
      (decide ((g.object e).paramVec.length ≤ 4)) _ hsources
    dsimp only
    rw [if_pos hnil, if_pos hsources, if_pos hparams, if_pos hnil, left, List.foldl_append,
      List.foldl_append]
  · simp only [if_neg hnil]

/-! ### Lists without repetition -/

omit [DecidableEq ε] [DecidableEq κ] in
theorem foldl_of_all {α : Type} {P : (ε → List (Listener ε κ)) → Prop} {xs : List α}
    {f : (ε → List (Listener ε κ)) → α → ε → List (Listener ε κ)} (h : P listeners)
    (hf : ∀ s ∈ xs, ∀ ls, P ls → P (f ls s)) :
  P (xs.foldl f listeners)
  := List.foldlRecOn _ _ h fun ls hls s hs => hf s hs ls hls

/-- No listener is in a list twice. -/
def Distinct (listeners : ε → List (Listener ε κ)) : Prop := ∀ x, (listeners x).Nodup

theorem Distinct.addToList (h : Distinct listeners) :
  Distinct (addToList listeners e l)
  := by
  intro x
  rw [Graph.addToList]
  split_ifs with hl
  · exact h x
  · by_cases hx : x = e
    · subst hx
      rw [Function.update_self]
      exact (h x).append (List.nodup_singleton l) (List.disjoint_singleton.mpr hl)
    · rw [Function.update_of_ne hx]
      exact h x

theorem Distinct.removeFromList (h : Distinct listeners) :
  Distinct (removeFromList listeners e l)
  := by
  intro x
  by_cases hx : x = e
  · subst hx
    rw [removeFromList_self]
    exact (h x).erase l
  · rw [removeFromList_of_ne hx]
    exact h x

theorem Distinct.addListener (h : Distinct listeners) :
  Distinct (g.addListener listeners e l)
  := by
  induction hn : g.rank e using Nat.strong_induction_on generalizing listeners e l with
  | _ n ih =>
    cases hprop : (g.object e).isPropagator with
    | false =>
      rw [addListener_leaf hprop]
      cases g.target e with
      | none => exact h
      | some t => exact h.addToList
    | true =>
      rw [addListener_propagator hprop]
      apply Distinct.addToList
      split_ifs
      · exact foldl_of_all h fun s hs ls hls => ih (g.rank s) (hn ▸ rank_heard hs) hls rfl
      · exact h

theorem Distinct.removeListener (h : Distinct listeners) :
  Distinct (g.removeListener listeners e l)
  := by
  induction hn : g.rank e using Nat.strong_induction_on generalizing listeners e l with
  | _ n ih =>
    cases hprop : (g.object e).isPropagator with
    | false =>
      rw [removeListener_leaf hprop]
      cases g.target e with
      | none => exact h
      | some t => exact h.removeFromList
    | true =>
      rw [removeListener_propagator hprop]
      split_ifs
      · apply foldl_of_all h.removeFromList
        intro s hs ls hls
        rw [leave]
        split_ifs
        · exact ih (g.rank s.1) (hn ▸ rank_heard (heard_of_left hs)) hls rfl
        · exact hls.addListener
      · exact h.removeFromList

/-- What is removed from the lists besides the expressions which come before. -/
theorem mem_removeListener (hdistinct : Distinct listeners) (hm : g.Foreign e m) :
  m ∈ g.removeListener listeners e l x ↔ m ∈ listeners x ∧ ¬ (m = l ∧ g.target e = some x)
  := by
  induction hn : g.rank e using Nat.strong_induction_on generalizing listeners e l with
  | _ n ih =>
    cases hprop : (g.object e).isPropagator with
    | false =>
      rw [removeListener_leaf hprop]
      cases htarget : g.target e with
      | none => simp
      | some t => simp [mem_removeFromList (hdistinct x)]
    | true =>
      rw [removeListener_propagator hprop, target_propagator hprop, Option.some.injEq,
        ← mem_removeFromList (hdistinct x)]
      split_ifs
      · -- what the expression leaves concerns itself only
        refine (foldl_of_all
          (P := fun ls => Distinct ls ∧ (m ∈ ls x ↔ m ∈ removeFromList listeners e l x))
          ⟨hdistinct.removeFromList, Iff.rfl⟩ ?_).2
        rintro s hs ls ⟨hdistinct, hls⟩
        have hheard := heard_of_left hs
        rw [leave]
        split_ifs
        · refine ⟨hdistinct.removeListener, ?_⟩
          rw [ih (g.rank s.1) (hn ▸ rank_heard hheard) hdistinct (hm.heard hheard) rfl, hls]
          exact and_iff_left fun h => hm.ne h.1
        · refine ⟨hdistinct.addListener, ?_⟩
          rw [mem_addListener (hm.heard hheard), hls]
          exact or_iff_left fun h => hm.ne h.1
      · rfl

theorem mem_foldl_removeListener {xs : List ε} (hdistinct : Distinct listeners)
    (hm : ∀ s ∈ xs, g.Foreign s m) :
  m ∈ xs.foldl (fun ls s => g.removeListener ls s l) listeners x ↔
    m ∈ listeners x ∧ ¬ (m = l ∧ ∃ s ∈ xs, g.target s = some x)
  := by
  induction xs generalizing listeners with
  | nil => simp
  | cons s xs ih =>
    rw [List.forall_mem_cons] at hm
    rw [List.foldl_cons, ih hdistinct.removeListener hm.2, mem_removeListener hdistinct hm.1,
      List.exists_mem_cons_iff, and_assoc, ← not_or, ← and_or_left]

/-! ### Expressions as listeners -/

/-- The expression is a listener of what it hears as long as it has listeners itself. -/
structure Wired (g : Graph ε) (listeners : ε → List (Listener ε κ)) (p : ε) : Prop where
  of_hears {x : ε} (h : g.Hears p x) (hlisteners : listeners p ≠ []) : .expr p ∈ listeners x
  of_mem {x : ε} (h : .expr p ∈ listeners x) : g.Hears p x ∧ (listeners p ≠ [] ∨ g.Leaks p x)

variable {p : ε}

omit [DecidableEq ε] [DecidableEq κ] in
theorem Wired.of_iff {listeners' : ε → List (Listener ε κ)} (h : g.Wired listeners p)
    (hmem : ∀ x, .expr p ∈ listeners' x ↔ .expr p ∈ listeners x)
    (hnil : (g.object p).isPropagator = true → (listeners' p = [] ↔ listeners p = [])) :
  g.Wired listeners' p
  := by
  constructor
  · intro x hhears hlisteners
    rw [Ne, hnil hhears.1] at hlisteners
    exact (hmem x).mpr (h.of_hears hhears hlisteners)
  · intro x hx
    have hx' := h.of_mem ((hmem x).mp hx)
    rwa [Ne, hnil hx'.1.1]

/-- Another object becomes a listener of one which is no propagator, or of another one. -/
theorem Wired.addToList {t : ε} (h : g.Wired listeners p) (hl : l ≠ .expr p)
    (ht : (g.object p).isPropagator = true → t ≠ p) :
  g.Wired (addToList listeners t l) p
  := by
  apply h.of_iff
  · intro x
    rw [mem_addToList]
    exact or_iff_left fun h => hl h.1.symm
  · intro hprop
    rw [addToList_of_ne (ht hprop).symm]

theorem Wired.removeFromList {t : ε} (hdistinct : Distinct listeners) (h : g.Wired listeners p)
    (hl : l ≠ .expr p) (ht : (g.object p).isPropagator = true → t ≠ p) :
  g.Wired (removeFromList listeners t l) p
  := by
  apply h.of_iff
  · intro x
    rw [mem_removeFromList (hdistinct x)]
    exact and_iff_left fun h => hl h.1.symm
  · intro hprop
    rw [removeFromList_of_ne (ht hprop).symm]

/-- The expression itself gets a listener. -/
theorem Wired.addListener_self (h : g.Wired listeners p) (hl : l ≠ .expr p)
    (hprop : (g.object p).isPropagator = true) :
  g.Wired (g.addListener listeners p l) p
  := by
  have hmem (x : ε) : .expr p ∈ g.addListener listeners p l x ↔
      .expr p ∈ listeners x ∨ listeners p = [] ∧ ∃ s ∈ g.heard p, g.target s = some x := by
    rw [addListener_propagator hprop, mem_addToList, or_iff_left fun h => hl h.1.symm]
    split_ifs with hnil
    · rw [mem_foldl_addListener fun s hs => mem_addListener (foreign_heard hs)]
      simp [hnil]
    · simp [hnil]
  have hne : g.addListener listeners p l p ≠ [] := by
    rw [addListener_propagator hprop]
    exact List.ne_nil_of_mem (mem_addToList.mpr (.inr ⟨rfl, rfl⟩))
  constructor
  · intro x hhears _
    by_cases hnil : listeners p = []
    · exact (hmem x).mpr (.inr ⟨hnil, hhears.2⟩)
    · exact (hmem x).mpr (.inl (h.of_hears hhears hnil))
  · intro x hx
    rcases (hmem x).mp hx with hx | ⟨-, hx⟩
    · exact ⟨(h.of_mem hx).1, .inl hne⟩
    · exact ⟨⟨hprop, hx⟩, .inl hne⟩

/-- Whatever gets a new listener, the other expressions remain wired. -/
theorem Wired.addListener (h : g.Wired listeners p) (hl : l ≠ .expr p) :
  g.Wired (g.addListener listeners e l) p
  := by
  induction hn : g.rank e using Nat.strong_induction_on generalizing listeners e l with
  | _ n ih =>
    cases hprop : (g.object e).isPropagator with
    | false =>
      rw [addListener_leaf hprop]
      cases htarget : g.target e with
      | none => exact h
      | some t =>
        apply h.addToList hl
        rintro hp rfl
        rw [eq_of_target_propagator htarget hp, hprop] at hp
        cases hp
    | true =>
      by_cases hpe : p = e
      · subst hpe
        exact h.addListener_self hl hprop
      · rw [addListener_propagator hprop]
        apply Wired.addToList _ hl fun _ => Ne.symm hpe
        split_ifs
        · apply foldl_of_all (P := fun ls => g.Wired ls p) h
          intro s hs ls hls
          apply ih (g.rank s) (hn ▸ rank_heard hs) hls _ rfl
          intro heq
          exact hpe (Listener.expr.inj heq).symm
        · exact h

theorem Distinct.foldl_leave {xs : List (ε × Bool)} (h : Distinct listeners) :
  Distinct (xs.foldl (g.leave e) listeners)
  := by
  apply foldl_of_all h
  intro s _ ls hls
  rw [leave]
  split_ifs
  · exact hls.removeListener
  · exact hls.addListener

/-- Where the expression removes itself. -/
theorem mem_foldl_leave_true {xs : List ε} (hdistinct : Distinct listeners) (hxs : xs ⊆ g.heard p) :
  .expr p ∈ (xs.map (·, true)).foldl (g.leave p) listeners x ↔
    .expr p ∈ listeners x ∧ ∀ s ∈ xs, g.target s ≠ some x
  := by
  rw [List.foldl_map]
  simp only [leave, if_true]
  rw [mem_foldl_removeListener hdistinct fun s hs => foreign_heard (hxs hs)]
  simp

/-- Where the expression adds itself instead. -/
theorem mem_foldl_leave_false {xs : List ε} (hxs : xs ⊆ g.heard p) :
  .expr p ∈ (xs.map (·, false)).foldl (g.leave p) listeners x ↔
    .expr p ∈ listeners x ∨ ∃ s ∈ xs, g.target s = some x
  := by
  rw [List.foldl_map]
  simp only [leave, Bool.false_eq_true, if_false]
  rw [mem_foldl_addListener fun s hs => mem_addListener (foreign_heard (hxs hs))]
  simp

/-- An expression without listeners remains only in the lists of parameters which are too many. -/
theorem mem_foldl_left (hdistinct : Distinct listeners) :
  .expr p ∈ (g.left p).foldl (g.leave p) listeners x ↔
    g.Leaks p x ∨ .expr p ∈ listeners x ∧ ∀ s ∈ g.heard p, g.target s ≠ some x
  := by
  have hsources : g.nearestSources p ⊆ g.heard p := fun _ hs => mem_heard.mpr (.inr (.inr hs))
  have hparams : (g.object p).paramVec ⊆ g.heard p := fun _ hs => mem_heard.mpr (.inl hs)
  have hothers : (g.object p).otherParts ⊆ g.heard p := fun _ hs =>
    mem_heard.mpr (.inr (.inl hs))
  have hheard : (∀ s ∈ g.heard p, g.target s ≠ some x) ↔
      (∀ s ∈ (g.object p).paramVec, g.target s ≠ some x) ∧
        (∀ s ∈ (g.object p).otherParts, g.target s ≠ some x) ∧
          ∀ s ∈ g.nearestSources p, g.target s ≠ some x := by
    simp only [mem_heard, or_imp, forall_and]
  rw [left, List.foldl_append, List.foldl_append,
    mem_foldl_leave_true hdistinct.foldl_leave.foldl_leave hothers, hheard, Leaks]
  by_cases hlength : (g.object p).paramVec.length ≤ 4
  · rw [decide_eq_true hlength, mem_foldl_leave_true hdistinct.foldl_leave hparams,
      mem_foldl_leave_true hdistinct hsources, ← Nat.not_le]
    tauto
  · rw [decide_eq_false hlength, mem_foldl_leave_false hparams,
      mem_foldl_leave_true hdistinct hsources, ← Nat.not_le]
    have hparam : (∀ s ∈ (g.object p).paramVec, g.target s ≠ some x) ↔
        ¬ ∃ s ∈ (g.object p).paramVec, g.target s = some x := by
      push Not
      rfl
    rw [hparam, and_iff_right hlength]
    by_cases hsome : ∃ s ∈ (g.object p).paramVec, g.target s = some x
    · simp only [hsome, or_true, true_and, not_true_eq_false, false_and, and_false, or_false]
    · simp only [hsome, or_false, false_and, not_false_eq_true, true_and, false_or]
      tauto

/-- The expression itself loses a listener. -/
theorem Wired.removeListener_self (hdistinct : Distinct listeners) (h : g.Wired listeners p)
    (hl : l ≠ .expr p) (hprop : (g.object p).isPropagator = true) :
  g.Wired (g.removeListener listeners p l) p
  := by
  have hmem (x : ε) : .expr p ∈ Graph.removeFromList listeners p l x ↔ .expr p ∈ listeners x := by
    rw [mem_removeFromList (hdistinct x)]
    exact and_iff_left fun h => hl h.1.symm
  rw [removeListener_propagator hprop]
  split_ifs with hnil
  · have hself : (g.left p).foldl (g.leave p) (Graph.removeFromList listeners p l) p = [] := by
      apply foldl_of_all (P := fun ls => ls p = [])
      · rwa [removeFromList_self]
      · intro s hs ls hls
        have hlt := rank_heard (heard_of_left hs)
        rw [leave]
        split_ifs
        · rw [removeListener_frame hlt, hls]
        · rw [addListener_frame hlt, hls]
    constructor
    · intro x _ hlisteners
      exact absurd hself hlisteners
    · intro x hx
      rw [mem_foldl_left hdistinct.removeFromList, hmem] at hx
      rcases hx with hleaks | hx
      · obtain ⟨s, hs, htarget⟩ := hleaks.2.1
        exact ⟨⟨hprop, s, mem_heard.mpr (.inl hs), htarget⟩, .inr hleaks⟩
      · obtain ⟨-, s, hs, htarget⟩ := (h.of_mem hx.1).1
        exact absurd htarget (hx.2 s hs)
  · have hne : Graph.removeFromList listeners p l p ≠ [] := by
      rwa [removeFromList_self]
    constructor
    · intro x hhears _
      apply (hmem x).mpr (h.of_hears hhears _)
      intro heq
      rw [heq] at hnil
      exact hnil rfl
    · intro x hx
      exact ⟨(h.of_mem ((hmem x).mp hx)).1, .inl hne⟩

/-- Whatever loses a listener, the other expressions remain wired. -/
theorem Wired.removeListener (hdistinct : Distinct listeners) (h : g.Wired listeners p)
    (hl : l ≠ .expr p) :
  g.Wired (g.removeListener listeners e l) p
  := by
  induction hn : g.rank e using Nat.strong_induction_on generalizing listeners e l with
  | _ n ih =>
    cases hprop : (g.object e).isPropagator with
    | false =>
      rw [removeListener_leaf hprop]
      cases htarget : g.target e with
      | none => exact h
      | some t =>
        apply h.removeFromList hdistinct hl
        rintro hp rfl
        rw [eq_of_target_propagator htarget hp, hprop] at hp
        cases hp
    | true =>
      by_cases hpe : p = e
      · subst hpe
        exact h.removeListener_self hdistinct hl hprop
      · have hwired := h.removeFromList hdistinct hl (t := e) fun _ => Ne.symm hpe
        have hself : (.expr e : Listener ε κ) ≠ .expr p := by
          intro heq
          exact hpe (Listener.expr.inj heq).symm
        rw [removeListener_propagator hprop]
        split_ifs
        · refine (foldl_of_all (P := fun ls => Distinct ls ∧ g.Wired ls p)
            ⟨hdistinct.removeFromList, hwired⟩ ?_).2
          rintro s hs ls ⟨hdistinct, hls⟩
          rw [leave]
          split_ifs
          · refine ⟨hdistinct.removeListener, ?_⟩
            exact ih (g.rank s.1) (hn ▸ rank_heard (heard_of_left hs)) hdistinct hls hself rfl
          · exact ⟨hdistinct.addListener, hls.addListener hself⟩
        · exact hwired

end Graph

end Plexil.Notification
