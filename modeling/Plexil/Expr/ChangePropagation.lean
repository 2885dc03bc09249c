import Plexil.Expr.Notifier

/-!
# Propagation of changes

Users of expressions activate and deactivate them, and add and remove listeners, in any order.  The
lists of listeners depend on nothing but who listens to what at the end, an expression is active
exactly when it is used, and a listener of an expression hears of every change of its value.
-/

open ActivationCount

namespace Plexil.Notification.Graph

variable {ε κ : Type} {g : Graph ε} [DecidableEq ε] [DecidableEq κ]

/-! ### The two parts of the state -/

/-- What an operation does to the lists. -/
def listen (g : Graph ε) (listeners : ε → List (Listener ε κ)) :
    Operation ε κ → ε → List (Listener ε κ)
  | .addListener e l => g.addListener listeners e (.other l)
  | .removeListener e l => g.removeListener listeners e (.other l)
  | .activate _ | .deactivate _ => listeners

/-- The calls of `activate` and `deactivate` among the operations. -/
def calls (operations : List (Operation ε κ)) : List (Call ε) :=
  operations.filterMap fun
    | .activate e => some (.activate e)
    | .deactivate e => some (.deactivate e)
    | _ => none

def performCall (g : Graph ε) (counts : ε → Nat) : Call ε → Option (ε → Nat)
  | .activate e => some (g.activate counts e)
  | .deactivate e => g.deactivate counts e

/-- The lists and the counts do not depend on each other. -/
theorem foldlM_step (operations : List (Operation ε κ)) (st : State ε κ) :
  operations.foldlM g.step st =
    ((calls operations).foldlM g.performCall st.activeCount).map fun activeCount =>
      { activeCount, listeners := operations.foldl g.listen st.listeners }
  := by
  induction operations generalizing st with
  | nil => rfl
  | cons operation operations ih =>
    cases operation with
    | addListener e l => exact ih _
    | removeListener e l => exact ih _
    | activate e => exact ih _
    | deactivate e =>
      rw [List.foldlM_cons, step]
      change _ = (((calls operations).foldlM g.performCall =<<
        g.deactivate st.activeCount e)).map _
      cases g.deactivate st.activeCount e with
      | none => rfl
      | some activeCount => exact ih _

/-! ### Active expressions -/

/-- The counted objects with what they activate. -/
def references (g : Graph ε) : References ε where
  refs e := (g.object e).activated.filter fun s => (g.object s).isCounted
  rank := g.rank
  rank_lt h := g.activated_lt (List.mem_of_mem_filter h)

theorem activate_eq (counts : ε → Nat) (e : ε) :
  g.activate counts e =
    if (g.object e).isCounted then g.references.retain counts e else counts
  := by
  induction hn : g.rank e using Nat.strong_induction_on generalizing counts e with
  | _ n ih =>
    have hfold (counts : ε → Nat) :
        (g.object e).activated.attach.foldl (fun counts s => g.activate counts s.1) counts =
          (g.references.refs e).foldl (fun counts s => g.references.retain counts s) counts := by
      rw [List.foldl_attach (f := fun counts s => g.activate counts s), references,
        List.foldl_filter]
      apply List.foldl_ext
      intro counts s hs
      exact ih (g.rank s) (hn ▸ g.activated_lt hs) counts s rfl
    rw [activate, References.retain]
    dsimp only
    rw [hfold]

omit [DecidableEq ε] in
theorem foldlM_attach (xs : List ε) (f : (ε → Nat) → ε → Option (ε → Nat)) (counts : ε → Nat) :
  xs.attach.foldlM (fun counts s => f counts s.1) counts = xs.foldlM f counts
  := by
  conv_rhs => rw [← List.attach_map_subtype_val xs, List.foldlM_map]

omit [DecidableEq ε] in
theorem foldlM_ext {xs : List ε} {f f' : (ε → Nat) → ε → Option (ε → Nat)}
    (h : ∀ s ∈ xs, ∀ counts, f counts s = f' counts s) (counts : ε → Nat) :
  xs.foldlM f counts = xs.foldlM f' counts
  := by
  induction xs generalizing counts with
  | nil => rfl
  | cons s xs ih =>
    rw [List.forall_mem_cons] at h
    rw [List.foldlM_cons, List.foldlM_cons, h.1]
    exact congrArg _ (funext (ih h.2))

theorem deactivate_eq (counts : ε → Nat) (e : ε) :
  g.deactivate counts e =
    if (g.object e).isCounted then g.references.release counts e else some counts
  := by
  induction hn : g.rank e using Nat.strong_induction_on generalizing counts e with
  | _ n ih =>
    have hfold (counts : ε → Nat) :
        (g.object e).activated.attach.foldlM (fun counts s => g.deactivate counts s.1) counts =
          (g.references.refs e).foldlM (fun counts s => g.references.release counts s) counts := by
      rw [foldlM_attach _ g.deactivate, references, List.foldlM_filter]
      apply foldlM_ext
      intro s hs counts
      exact ih (g.rank s) (hn ▸ g.activated_lt hs) counts s rfl
    rw [deactivate, References.release]
    dsimp only
    rw [hfold]

/-- Only calls at counted objects matter. -/
theorem foldlM_performCall (calls : List (Call ε)) (counts : ε → Nat) :
  calls.foldlM g.performCall counts =
    (calls.filter fun call => (g.object call.target).isCounted).foldlM
      g.references.perform counts
  := by
  induction calls generalizing counts with
  | nil => rfl
  | cons call calls ih =>
    rw [List.foldlM_cons, List.filter_cons]
    have hcall : g.performCall counts call =
        if (g.object call.target).isCounted then g.references.perform counts call
        else some counts := by
      cases call with
      | activate e =>
        rw [performCall, activate_eq, apply_ite some]
        rfl
      | deactivate e => exact deactivate_eq counts e
    rw [hcall]
    split_ifs
    · rw [List.foldlM_cons]
      exact congrArg _ (funext ih)
    · exact ih counts

/-- The object has no count, or it is activated by someone, who may be an object which is active. -/
def Used (g : Graph ε) (operations : List (Operation ε κ)) (e : ε) : Prop :=
  (g.object e).isCounted = false ∨
    ∃ r, (g.object r).isCounted = true ∧ 0 < net (calls operations) r ∧ g.references.Reaches r e

theorem run_calls [Fintype ε] {operations : List (Operation ε κ)}
    (h : Covered (calls operations) fun _ => 0) :
  ∃ st, g.run operations = some st ∧ ∀ e, g.isActive st e = true ↔ g.Used operations e
  := by
  obtain ⟨counts, hcounts, hbalanced, hnonneg⟩ := References.performAll_balanced (g := g.references)
    (h.filter (p := fun e => (g.object e).isCounted) fun _ _ => rfl)
  refine ⟨{ activeCount := counts, listeners := operations.foldl g.listen State.initial.listeners },
    ?_, ?_⟩
  · rw [run, foldlM_step, foldlM_performCall]
    change Option.map _ (g.references.performAll _) = _
    rw [hcounts]
    rfl
  · intro e
    have hcount := hbalanced.count_ne_zero_iff hnonneg (a := e)
    rw [isActive, Bool.or_eq_true, Bool.not_eq_true', decide_eq_true_eq, Nat.pos_iff_ne_zero,
      hcount, Used]
    apply or_congr_right
    apply exists_congr
    intro r
    rw [net_filter (fun e => (g.object e).isCounted)]
    split_ifs with hr
    · simp [hr]
    · simp [hr]

/-! ### Lists of listeners -/

/-- Who listens to what, by the objects whose lists are used. -/
def listenerEffect (g : Graph ε) (installed : Set (ε × κ)) : Operation ε κ → Set (ε × κ)
  | .addListener e l => installed ∪ {p | g.target e = some p.1 ∧ p.2 = l}
  | .removeListener e l => installed \ {p | g.target e = some p.1 ∧ p.2 = l}
  | .activate _ | .deactivate _ => installed

def installed (g : Graph ε) (operations : List (Operation ε κ)) : Set (ε × κ) :=
  operations.foldl g.listenerEffect ∅

/-- The lists when exactly these other objects listen. -/
structure Lists (g : Graph ε) (listeners : ε → List (Listener ε κ)) (installed : Set (ε × κ)) :
    Prop where
  distinct : Distinct listeners
  wired (p : ε) : g.Wired listeners p
  other (x : ε) (l : κ) : .other l ∈ listeners x ↔ (x, l) ∈ installed

omit [DecidableEq ε] [DecidableEq κ] in
theorem Lists.empty :
  g.Lists (κ := κ) (fun _ => []) ∅
  where
  distinct _ := List.nodup_nil
  wired p := ⟨fun _ hlisteners => absurd rfl hlisteners, fun hmem => absurd hmem List.not_mem_nil⟩
  other x l := by
    simp

omit [DecidableEq ε] [DecidableEq κ] in
theorem foreign_other (e : ε) (l : κ) :
  g.Foreign e (.other l)
  := by
  intro p hp
  cases hp

theorem Lists.listen {listeners : ε → List (Listener ε κ)} {installed : Set (ε × κ)}
    (h : g.Lists listeners installed) (operation : Operation ε κ) :
  g.Lists (g.listen listeners operation) (g.listenerEffect installed operation)
  := by
  cases operation with
  | addListener e l =>
    constructor
    · exact h.distinct.addListener
    · intro p
      exact (h.wired p).addListener (by exact nofun)
    · intro x m
      rw [Graph.listen, mem_addListener (foreign_other e m), h.other, Listener.other.injEq]
      exact or_congr_right and_comm
  | removeListener e l =>
    constructor
    · exact h.distinct.removeListener
    · intro p
      exact (h.wired p).removeListener h.distinct (by exact nofun)
    · intro x m
      rw [Graph.listen, mem_removeListener h.distinct (foreign_other e m), h.other,
        Listener.other.injEq]
      exact and_congr_right fun _ => not_congr and_comm
  | activate e => exact h
  | deactivate e => exact h

theorem Lists.foldl_listen {listeners : ε → List (Listener ε κ)} {installed : Set (ε × κ)}
    (h : g.Lists listeners installed) (operations : List (Operation ε κ)) :
  g.Lists (operations.foldl g.listen listeners) (operations.foldl g.listenerEffect installed)
  := by
  induction operations generalizing listeners installed with
  | nil => exact h
  | cons operation operations ih => exact ih (h.listen operation)

theorem run_lists {operations : List (Operation ε κ)} {st : State ε κ}
    (h : g.run operations = some st) :
  g.Lists st.listeners (g.installed operations)
  := by
  rw [run, foldlM_step, Option.map_eq_some_iff] at h
  obtain ⟨counts, -, rfl⟩ := h
  exact Lists.empty.foldl_listen operations

omit [DecidableEq ε] in
theorem Hears.rank_lt {p x : ε} (h : g.Hears p x) :
  g.rank x < g.rank p
  := by
  obtain ⟨-, s, hs, htarget⟩ := h
  exact (rank_target htarget).trans_lt (rank_heard hs)

omit [DecidableEq ε] [DecidableEq κ] in
/-- An object has listeners exactly when there is a chain from one with a listener outside. -/
theorem Lists.ne_nil_iff [Fintype ε] {listeners : ε → List (Listener ε κ)}
    {installed : Set (ε × κ)} (h : g.Lists listeners installed) (hleaks : ∀ p x, ¬ g.Leaks p x)
    (x : ε) :
  listeners x ≠ [] ↔ ∃ r l, (r, l) ∈ installed ∧ Relation.ReflTransGen g.Hears r x
  := by
  constructor
  · intro hx
    induction x using References.induction_from_top g.rank with
    | h x ih =>
      obtain ⟨m, hm⟩ := List.exists_mem_of_ne_nil _ hx
      cases m with
      | other l => exact ⟨x, l, (h.other x l).mp hm, .refl⟩
      | expr p =>
        obtain ⟨hhears, hp⟩ := (h.wired p).of_mem hm
        obtain ⟨r, l, hinstalled, hchain⟩ := ih p hhears.rank_lt (hp.resolve_right (hleaks p x))
        exact ⟨r, l, hinstalled, hchain.tail hhears⟩
  · rintro ⟨r, l, hinstalled, hchain⟩
    induction hchain with
    | refl => exact List.ne_nil_of_mem ((h.other r l).mpr hinstalled)
    | tail _ hhears ih => exact List.ne_nil_of_mem ((h.wired _).of_hears hhears ih)

/-- A lookup which has got a listener and lost it remains where it leaks. -/
theorem run_leaks {p x : ε} (h : g.Leaks p x) (l : κ) :
  ∃ st, g.run [.addListener p l, .removeListener p l] = some st ∧ .expr p ∈ st.listeners x
  := by
  have hprop : (g.object p).isPropagator = true := by
    have hlength := h.1
    cases hobject : g.object p <;> simp_all [Listenable.paramVec, Listenable.isPropagator]
  have hself : g.addListener (fun _ => []) p (.other l) p = [.other l] := by
    rw [addListener_propagator hprop, if_pos rfl, addToList,
      foldl_addListener_frame fun s => rank_heard, if_neg List.not_mem_nil, Function.update_self]
    rfl
  have hdistinct : Distinct (g.addListener (fun _ => []) p (.other l)) :=
    (Lists.empty (g := g)).distinct.addListener
  refine ⟨_, rfl, ?_⟩
  change .expr p ∈ g.removeListener (g.addListener (fun _ => []) p (.other l)) p (.other l) x
  rw [removeListener_propagator hprop, hself, List.erase_cons_head, if_pos rfl,
    mem_foldl_left hdistinct.removeFromList]
  exact .inl h

/-! ### Values -/

/-- A change of the values of the objects, with those which publish a change of their own: nodes
and variables whenever their value is another one, and a lookup when the state cache tells it. -/
structure Change (g : Graph ε) (V : Type) where
  before : ε → V
  after : ε → V
  published : ε → Prop
  determined {e : ε} (h : (g.object e).isPropagationSource = false)
    (hsubexprs : ∀ s ∈ (g.object e).subexprs, before s = after s) : before e = after e
  leaf {e : ε} (h : (g.object e).isPropagationSource = true)
    (hleaf : (g.object e).isPropagator = false) (hne : before e ≠ after e) : published e
  lookup {e stateName : ε} {params : List ε} {tolerance : Option ε}
    (h : g.object e = .lookup stateName params tolerance) (hne : before e ≠ after e)
    (hstate : ∀ s ∈ stateName :: params, before s = after s) : published e

/-- `handleChange` of a lookup publishes the change only when its state is another one. -/
def Change.publishesChange {V : Type} (c : g.Change V) (p : ε) : Prop :=
  match g.object p with
  | .lookup stateName params _ => ∃ s ∈ stateName :: params, c.before s ≠ c.after s
  | _ => True

/-- `publishChange` is called at the object while it is active. -/
inductive Publishes (st : State ε κ) {V : Type} (c : g.Change V) : ε → Prop where
  | own {e : ε} (hactive : g.isActive st e = true) (h : c.published e) : Publishes st c e
  | notified {e p : ε} (h : Publishes st c e) (hlistener : .expr p ∈ st.listeners e)
    (hactive : g.isActive st p = true) (hchange : c.publishesChange p) : Publishes st c p

/-- `notifyChanged` of the listener is called. -/
def Notified (st : State ε κ) {V : Type} (c : g.Change V) (l : κ) : Prop :=
  ∃ e, Publishes st c e ∧ .other l ∈ st.listeners e

section Order

omit [DecidableEq ε] [DecidableEq κ]

/-- The object is below the other one, or the same. -/
def Below (g : Graph ε) : ε → ε → Prop :=
  Relation.ReflTransGen fun e s => s ∈ (g.object e).subexprs

theorem Below.nearestSources {e s : ε} (hs : s ∈ g.nearestSources e) :
  g.Below e s
  := by
  induction hn : g.rank e using Nat.strong_induction_on generalizing e with
  | _ n ih =>
    rw [nearestSources_eq, List.mem_flatMap] at hs
    obtain ⟨s', hs', hs⟩ := hs
    split_ifs at hs
    · rw [List.mem_singleton.mp hs]
      exact .single hs'
    · exact .head hs' (ih (g.rank s') (hn ▸ g.subexprs_lt hs') hs rfl)

/-- The value depends on the values of the nearest sources. -/
theorem Change.nearestSources {V : Type} (c : g.Change V) {e : ε}
    (h : (g.object e).isPropagationSource = false) (hne : c.before e ≠ c.after e) :
  ∃ s ∈ g.nearestSources e, (g.object s).isPropagationSource = true ∧ c.before s ≠ c.after s
  := by
  induction hn : g.rank e using Nat.strong_induction_on generalizing e with
  | _ n ih =>
    have hsubexprs : ∃ s ∈ (g.object e).subexprs, c.before s ≠ c.after s := by
      by_contra hnone
      push Not at hnone
      exact hne (c.determined h hnone)
    obtain ⟨s, hs, hsne⟩ := hsubexprs
    rw [nearestSources_eq]
    cases hsource : (g.object s).isPropagationSource with
    | true =>
      refine ⟨s, List.mem_flatMap.mpr ⟨s, hs, ?_⟩, hsource, hsne⟩
      rw [hsource]
      exact List.mem_singleton_self s
    | false =>
      obtain ⟨t, ht, htsource, htne⟩ := ih (g.rank s) (hn ▸ g.subexprs_lt hs) hsource hsne rfl
      refine ⟨t, List.mem_flatMap.mpr ⟨s, hs, ?_⟩, htsource, htne⟩
      rw [hsource]
      exact ht

theorem target_source {s : ε} (h : (g.object s).isPropagationSource = true) :
  g.target s = some s
  := by
  rw [target]
  split
  · rename_i hobject
    rw [hobject] at h
    cases h
  · rename_i hobject
    rw [hobject] at h
    cases h
  · rfl

theorem Change.leaf_or_propagator {e : ε}
    (h : (g.object e).isPropagationSource = true ∨ (g.object e).isPropagator = true)
    {V : Type} (c : g.Change V) (hne : c.before e ≠ c.after e) :
  c.published e ∨ (g.object e).isPropagator = true
  := by
  cases hprop : (g.object e).isPropagator with
  | false =>
    rw [hprop] at h
    exact .inl (c.leaf (h.resolve_right (by exact nofun)) hprop hne)
  | true => exact .inr rfl

/-- When the value of a propagator is another one, then it has published this, or it will publish
it when one of those it hears has done so. -/
theorem Change.heard {V : Type} (c : g.Change V) {e : ε}
    (h : (g.object e).isPropagator = true) (hne : c.before e ≠ c.after e) :
  c.published e ∨ c.publishesChange e ∧
    ∃ s ∈ g.heard e, (g.object s).isPropagationSource = true ∧ c.before s ≠ c.after s
  := by
  cases hsource : (g.object e).isPropagationSource with
  | false =>
    right
    constructor
    · rw [publishesChange]
      split
      · rename_i hobject
        rw [hobject] at hsource
        cases hsource
      · trivial
    · obtain ⟨s, hs, hs'⟩ := c.nearestSources hsource hne
      exact ⟨s, List.mem_append_right _ hs, hs'⟩
  | true =>
    cases hobject : g.object e with
    | lookup stateName params tolerance =>
      by_cases hstate : ∀ s ∈ stateName :: params, c.before s = c.after s
      · exact .inl (c.lookup hobject hne hstate)
      · push Not at hstate
        right
        constructor
        · rw [publishesChange, hobject]
          exact hstate
        · obtain ⟨s, hs, hsne⟩ := hstate
          have hsubexpr : s ∈ (g.object e).subexprs := by
            rw [hobject]
            exact List.mem_append_left _ hs
          cases hssource : (g.object s).isPropagationSource with
          | true =>
            refine ⟨s, List.mem_append_left _ ?_, hssource, hsne⟩
            rw [hobject]
            exact List.mem_append_right _ hs
          | false =>
            obtain ⟨t, ht, ht'⟩ := c.nearestSources hssource hsne
            refine ⟨t, List.mem_append_right _ ?_, ht'⟩
            rw [nearestSources_eq, List.mem_flatMap]
            refine ⟨s, hsubexpr, ?_⟩
            rw [hssource]
            exact ht
    | constant | node | nodeVariable owner | userVariable initializers =>
      rw [hobject] at h
      cases h
    | function exprs | arrayReference array index | inAlias original | nodeFunction sources =>
      rw [hobject] at hsource
      cases hsource

theorem Below.heard {e s : ε} (hs : s ∈ g.heard e) :
  g.Below e s
  := by
  rw [Graph.heard, List.mem_append] at hs
  cases hs with
  | inl hs => exact .single (g.parameters_subset hs)
  | inr hs => exact .nearestSources hs

end Order

omit [DecidableEq ε] [DecidableEq κ] in
/-- An object which has listeners, and below which everything is active, publishes every change of
its value. -/
theorem Lists.publishes {st : State ε κ} {installed : Set (ε × κ)}
    (h : g.Lists st.listeners installed) {V : Type} (c : g.Change V) {e : ε}
    (hkind : (g.object e).isPropagationSource = true ∨ (g.object e).isPropagator = true)
    (hactive : ∀ s, g.Below e s → g.isActive st s = true) (hlisteners : st.listeners e ≠ [])
    (hne : c.before e ≠ c.after e) :
  Publishes st c e
  := by
  induction hn : g.rank e using Nat.strong_induction_on generalizing e with
  | _ n ih =>
    have hself := hactive e .refl
    rcases c.leaf_or_propagator hkind hne with hpublished | hprop
    · exact .own hself hpublished
    · rcases c.heard hprop hne with hpublished | ⟨hchange, s, hs, hsource, hsne⟩
      · exact .own hself hpublished
      · have hlistener : .expr e ∈ st.listeners s :=
          (h.wired e).of_hears ⟨hprop, s, hs, target_source hsource⟩ hlisteners
        have hs' : Publishes st c s := by
          apply ih (g.rank s) (hn ▸ rank_heard hs) (.inl hsource) _
            (List.ne_nil_of_mem hlistener) hsne rfl
          intro t ht
          exact hactive t ((Below.heard hs).trans ht)
        exact .notified hs' hlistener hself hchange

omit [DecidableEq κ] in
/-- What is below an object in use is in use, when this holds for what the objects there do not
activate themselves. -/
theorem Used.below {operations : List (Operation ε κ)} {r e : ε} (hr : g.Used operations r)
    (hothers : ∀ e s, g.Below r e → s ∈ (g.object e).subexprs →
      s ∈ (g.object e).activated ∨ g.Used operations s)
    (he : g.Below r e) :
  g.Used operations e
  := by
  induction he with
  | refl => exact hr
  | tail hbelow hs ih =>
    rename_i e s
    rcases hothers e s hbelow hs with hactivated | hused
    · cases hcounted : (g.object s).isCounted with
      | false => exact .inl hcounted
      | true =>
        rcases ih with hconstant | ⟨q, hq, hnet, hreaches⟩
        · cases hobject : g.object e <;> simp_all [Listenable.isCounted, Listenable.activated]
        · exact .inr ⟨q, hq, hnet, hreaches.tail (List.mem_filter.mpr ⟨hactivated, hcounted⟩)⟩
    · exact hused

/-! ### Runs -/

section Runs

variable [Fintype ε]

/-- A variable, a lookup which has it as its name, and a function of the lookup. -/
def lookupGraph : Graph (Fin 3) where
  object
    | 0 => .userVariable []
    | 1 => .lookup 0 [] none
    | 2 => .function [1]
  rank e := e
  object_owner {e owner} h := by
    match e with
    | 0 | 1 | 2 => cases h
  subexprs_lt {e s} h := by
    revert e s
    decide
  activated_lt {e s} h := by
    revert e s
    decide

/-- Where no lookup leaks, the lists of listeners depend only on who listens to what at the end: an
object outside is in the list of what it listens to, and an expression is in the lists of those it
hears, when there is a chain from an expression with a listener outside to it. -/
theorem mem_listeners_iff (hleaks : ∀ p x, ¬ g.Leaks p x) {operations : List (Operation ε κ)}
    {st : State ε κ} (h : g.run operations = some st) (x : ε) :
  (st.listeners x).Nodup ∧ (∀ l, .other l ∈ st.listeners x ↔ (x, l) ∈ g.installed operations) ∧
    ∀ p, .expr p ∈ st.listeners x ↔ g.Hears p x ∧
      ∃ r l, (r, l) ∈ g.installed operations ∧ Relation.ReflTransGen g.Hears r p
  := by
  have hlists := run_lists h
  refine ⟨hlists.distinct x, hlists.other x, fun p => ?_⟩
  rw [← hlists.ne_nil_iff hleaks]
  constructor
  · intro hp
    obtain ⟨hhears, hlisteners⟩ := (hlists.wired p).of_mem hp
    exact ⟨hhears, hlisteners.resolve_right (hleaks p x)⟩
  · rintro ⟨hhears, hlisteners⟩
    exact (hlists.wired p).of_hears hhears hlisteners

theorem mem_listeners_iff_lookupGraph :
  ∃ st, lookupGraph.run [.addListener 2 ()] = some st ∧
    .other () ∈ st.listeners 2 ∧ .other () ∉ st.listeners 1
  := by
  obtain ⟨st, hst⟩ : ∃ st, lookupGraph.run [.addListener 2 ()] = some st := ⟨_, rfl⟩
  have hleaks (p x : Fin 3) : ¬ lookupGraph.Leaks p x := by
    rintro ⟨hlength, -, -⟩
    revert p
    decide
  refine ⟨st, hst, ?_, ?_⟩
  · rw [(mem_listeners_iff hleaks hst 2).2.1]
    exact .inr ⟨rfl, rfl⟩
  · rw [(mem_listeners_iff hleaks hst 1).2.1]
    rintro (h | ⟨h, -⟩)
    · exact h
    · cases h

/-- All lists are empty whenever nobody listens any more, exactly when every lookup with more than
four parameters has each of them, as far as it can change, as its name or tolerance as well. -/
theorem listeners_empty_iff [Inhabited κ] :
  (∀ (operations : List (Operation ε κ)) (st : State ε κ), g.run operations = some st →
    g.installed operations = ∅ → ∀ x, st.listeners x = []) ↔ ∀ p x, ¬ g.Leaks p x
  := by
  constructor
  · intro h p x hleaks
    have hinstalled : g.installed [.addListener p default, .removeListener p default] =
        (∅ : Set (ε × κ)) := by
      ext y
      simp [installed, listenerEffect]
    obtain ⟨st, hst, hmem⟩ := run_leaks hleaks (default : κ)
    rw [h _ st hst hinstalled x] at hmem
    exact List.not_mem_nil hmem
  · intro hleaks operations st h hinstalled x
    by_contra hne
    obtain ⟨r, l, hr, -⟩ := ((run_lists h).ne_nil_iff hleaks x).mp hne
    rw [hinstalled] at hr
    exact hr

/-- The variable gets another value, and so do the others. -/
def lookupGraphChange : lookupGraph.Change Nat where
  before _ := 0
  after _ := 1
  published e := e = 0
  determined {e} h hsubexprs := by
    match e with
    | 0 => cases h
    | 1 => cases h
    | 2 => cases hsubexprs 1 (List.mem_singleton_self 1)
  leaf {e} h hleaf hne := by
    match e with
    | 0 => rfl
    | 1 => cases hleaf
    | 2 => cases h
  lookup {e stateName params tolerance} h hne hstate := by
    cases hstate stateName List.mem_cons_self

/-- A listener of an expression in use hears of every change of its value, when the originals of
aliases and the sources of node functions below it are in use as well. -/
theorem notified_of_ne {operations : List (Operation ε κ)}
    (h : Covered (calls operations) fun _ => 0) :
  ∃ st, g.run operations = some st ∧ ∀ {V : Type} (c : g.Change V) (r x : ε) (l : κ),
    g.target r = some x → (x, l) ∈ g.installed operations → g.Used operations r →
      (∀ e s, g.Below r e → s ∈ (g.object e).subexprs →
        s ∈ (g.object e).activated ∨ g.Used operations s) →
        c.before r ≠ c.after r → Notified st c l
  := by
  obtain ⟨st, hst, hactive⟩ := run_calls (g := g) h
  have hlists := run_lists hst
  refine ⟨st, hst, fun c r x l htarget hinstalled hr hothers hne => ?_⟩
  have hlistener := (hlists.other x l).mpr hinstalled
  have hbelow (e : ε) (he : g.Below r e) : g.isActive st e = true :=
    (hactive e).mpr (hr.below hothers he)
  refine ⟨x, ?_, hlistener⟩
  have hlisteners := List.ne_nil_of_mem hlistener
  cases hobject : g.object r with
  | constant =>
    rw [target, hobject] at htarget
    cases htarget
  | nodeVariable owner =>
    rw [target, hobject] at htarget
    cases htarget
    have hmem : x ∈ (g.object r).subexprs := by
      rw [hobject]
      exact List.mem_singleton_self x
    have hsource : (g.object x).isPropagationSource = true := by
      rw [g.object_owner hobject]
      rfl
    apply hlists.publishes c (.inl hsource) (fun s hs => hbelow s (.head hmem hs)) hlisteners
    intro heq
    apply hne
    apply c.determined
    · rw [hobject]
      rfl
    · intro s hs
      rw [hobject] at hs
      rwa [List.mem_singleton.mp hs]
  | _ =>
    rw [target, hobject] at htarget
    cases htarget
    apply hlists.publishes c _ hbelow hlisteners hne
    rw [hobject]
    simp [Listenable.isPropagationSource, Listenable.isPropagator]

theorem notified_of_ne_lookupGraph :
  ∃ st, lookupGraph.run [.activate 2, .addListener 2 ()] = some st ∧
    Notified st lookupGraphChange ()
  := by
  have hcovered : Covered (calls (κ := Unit) [.activate (2 : Fin 3), .addListener 2 ()])
      fun _ => 0 := by decide
  obtain ⟨st, hst, hnotified⟩ := notified_of_ne (g := lookupGraph) hcovered
  refine ⟨st, hst, hnotified lookupGraphChange 2 2 () rfl (.inr ⟨rfl, rfl⟩) ?_ ?_ (by decide)⟩
  · exact .inr ⟨2, rfl, by decide, .refl⟩
  · intro e s _ hs
    match e with
    | 0 => cases hs
    | 1 => exact .inl hs
    | 2 => exact .inl hs

end Runs

end Plexil.Notification.Graph
