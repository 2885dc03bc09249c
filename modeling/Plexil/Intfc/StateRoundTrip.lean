import Plexil.Intfc.State
import Plexil.Value.RoundTrip

/-!
# Round trips of states and of sequences of values

A state is read back when each of its parameters is and there are not too many of them;
values written one after another are read back when each of them is.
-/

namespace Plexil.Intfc

open Reader

namespace State

/-- The states which can be written. -/
def Serializable (s : State) : Prop :=
  s.name.length ≤ 0xFFFFFF ∧ ∀ parameter ∈ s.parameters, parameter.Serializable

/-- The number of parameters fits in three bytes, and each parameter is read back. -/
def RoundTrips (s : State) : Prop :=
  s.parameters.length ≤ 0xFFFFFF ∧ ∀ parameter ∈ s.parameters, parameter.RoundTrips

theorem serialize_isSome {s : State} (hs : s.Serializable) :
  ∃ bytes, s.serialize = some bytes
  := by
  obtain ⟨name, hname⟩ := Value.serialize_isSome (v := .string s.name) hs.1
  obtain ⟨parameters, hparameters⟩ :=
    serializeElements_isSome fun parameter hparameter =>
      Value.serialize_isSome (hs.2 parameter hparameter)
  rw [Value.serialize] at hname
  rw [serialize, hname, hparameters]
  exact ⟨_, rfl⟩

theorem reads_iff {s : State} {bytes : List Byte} (h : s.serialize = some bytes) :
  Reads deserialize bytes s ↔ s.RoundTrips
  := by
  obtain ⟨name, hname, h⟩ := Option.bind_eq_some_iff.mp h
  obtain ⟨parameters, hparameters, h⟩ := Option.bind_eq_some_iff.mp h
  obtain rfl := Option.some.inj h
  rw [deserialize, ← List.singleton_append, Reads.bind_iff (reads_checkType .state),
    Reads.bind_iff (reads_string hname), Reads.bind_iff (reads_size _), RoundTrips]
  by_cases hlength : s.parameters.length ≤ 0xFFFFFF
  · have hcount : s.parameters.length % 2 ^ 24 = s.parameters.length :=
      Nat.mod_eq_of_lt (by omega)
    have hinjective : Function.Injective (State.mk s.name) := fun _ _ heq => (State.mk.inj heq).2
    rw [hcount]
    apply (reads_map_iff hinjective).trans
    apply (reads_elements_iff Value.RoundTrips _ _ hparameters).trans
    · simp [hlength]
    · intro v bytes hv hok
      apply Value.reads hv hok
    · intro v bytes hv hok
      apply Value.misreads hv hok
  · apply iff_of_false
    · intro hread
      obtain ⟨⟨vs, rest⟩, hvs, heq⟩ := Option.bind_eq_some_iff.mp (hread [])
      have hcount := many_length hvs
      have hstate := (Prod.mk.inj (Option.some.inj heq)).1
      rw [← congrArg State.parameters hstate] at hlength hcount
      simp only at hlength hcount
      omega
    · exact fun h => hlength h.1

end State

/-! ### What is read back -/

/-- A value is read back from what is written, whatever follows, exactly when it is no unknown
of a type and the size of an array is plain.  Likewise for a state and for values written one
after another. -/
theorem serialize_roundTrip_iff (v : { v : Value // v.Serializable })
  (s : { s : State // s.Serializable }) (vs : { vs : List Value // ∀ v ∈ vs, v.Serializable }) :
  ((∃ bytes, v.val.serialize = some bytes ∧ Reads Value.deserialize bytes v.val)
      ↔ v.val.RoundTrips) ∧
  ((∃ bytes, s.val.serialize = some bytes ∧ Reads State.deserialize bytes s.val)
      ↔ s.val.RoundTrips) ∧
  ((∃ bytes, serializeElements Value.serialize vs.val = some bytes ∧
      Reads (Value.deserialize.many vs.val.length) bytes vs.val)
      ↔ ∀ v ∈ vs.val, v.RoundTrips)
  := by
  constructor
  · obtain ⟨v, hv⟩ := v
    obtain ⟨bytes, hbytes⟩ := Value.serialize_isSome hv
    constructor
    · rintro ⟨bytes, hbytes, hread⟩
      by_contra hmisread
      exact (Value.misreads hbytes hmisread).not_reads hread
    · intro h
      exact ⟨bytes, hbytes, Value.reads hbytes h⟩
  constructor
  · obtain ⟨s, hs⟩ := s
    obtain ⟨bytes, hbytes⟩ := State.serialize_isSome hs
    constructor
    · rintro ⟨bytes, hbytes, hread⟩
      exact (State.reads_iff hbytes).mp hread
    · intro h
      exact ⟨bytes, hbytes, (State.reads_iff hbytes).mpr h⟩
  · obtain ⟨vs, hvs⟩ := vs
    obtain ⟨bytes, hbytes⟩ := serializeElements_isSome fun v hv => Value.serialize_isSome (hvs v hv)
    have hiff {bytes : List Byte} (hbytes : serializeElements Value.serialize vs = some bytes) :
        Reads (Value.deserialize.many vs.length) bytes vs ↔ ∀ v ∈ vs, v.RoundTrips :=
      reads_elements_iff Value.RoundTrips (fun v bytes => Value.reads)
        (fun v bytes => Value.misreads) hbytes
    constructor
    · rintro ⟨bytes, hbytes, hread⟩
      exact (hiff hbytes).mp hread
    · intro h
      exact ⟨bytes, hbytes, (hiff hbytes).mpr h⟩

/-- An array of 128 elements. -/
def longArray : ArrayImpl Boolean := List.replicate 128 ⟨true, true⟩

/-- The array of 128 elements is not read back, as the last byte of its size is negative. -/
theorem serialize_roundTrip_fails :
  ¬ ∀ v : { v : Value // v.Serializable },
    ∃ bytes, v.val.serialize = some bytes ∧ Reads Value.deserialize bytes v.val
  := by
  intro h
  have hlength : longArray.length = 128 := List.length_replicate
  have hserializable : (Value.booleanArray longArray).Serializable := by
    change longArray.length ≤ 0xFFFFFF
    omega
  obtain ⟨bytes, hbytes, hread⟩ := h ⟨.booleanArray longArray, hserializable⟩
  have hplain : ¬ (Value.booleanArray longArray).RoundTrips := by
    intro hplain
    have hlow : longArray.length % 256 < 128 := hplain.2.2
    omega
  exact (Value.misreads hbytes hplain).not_reads hread

end Plexil.Intfc
