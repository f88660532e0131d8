/-!
# Instances

Libraries have further instances for powers. The one meant here is that of the language, whatever
else is imported. Byte arrays are compared as lists, byte by byte, so that it can be decided what is
in a file; results of actions can be compared as well.
-/

attribute [instance (high), default_instance (high + 1)] instPowNat

namespace Depot

instance (priority := high) decEqBytes : DecidableEq ByteArray := fun a b =>
  decidable_of_iff (a.data.toList = b.data.toList)
    ⟨fun h => ByteArray.ext (Array.toList_inj.1 h), fun h => by rw [h]⟩

instance decEqResult {ε σ α : Type} [DecidableEq ε] [DecidableEq σ] [DecidableEq α] :
    DecidableEq (EStateM.Result ε σ α)
  | .ok a s, .ok b t => decidable_of_iff (a = b ∧ s = t) (by simp)
  | .error e s, .error f t => decidable_of_iff (e = f ∧ s = t) (by simp)
  | .ok .., .error .. | .error .., .ok .. => isFalse nofun

end Depot
